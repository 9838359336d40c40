import EventBase.Foundations.AssocList
import EventBase.Foundations.Run
import EventBase.Wal

/-! Several clients of one Redis prefix running `schedule`, `fetch_ready` and
`remove_scheduled`, interleaved at single commands. A command that fails with its
effect is the command followed by `fail`; one that fails without it, and a crash
between two commands, are `fail`, and so is the end of a `schedule` whose record does
not encode. -/

namespace EventBase
open Foundations

/-- What `ZRANGEBYSCORE -inf now` returns. -/
def RedisWal.dueIds (store : RedisWal) (now : SystemTime) : List String :=
  keysWhere store.delayIndex (fun indexed => indexed ≤ score (nowMillis now))

inductive DelayCall where
  | schedule (record : WalRecord)
  | fetchReady (now : SystemTime)
  | removeScheduled (messageId : String)

/-- The local variables of a running `fetch_ready`. -/
structure Fetch where
  call : Nat
  now : SystemTime
  due : List String
  ready : List WalRecord
  deriving DecidableEq

/-- Where a client stands, named after the command it issues next. -/
inductive DelayClient where
  | idle
  /-- `INCR` -/
  | minting (record : WalRecord)
  /-- `EVAL` -/
  | storing (record : WalRecord)
  | stored
  /-- `ZRANGEBYSCORE` -/
  | listing (call : Nat) (now : SystemTime)
  /-- The head of the loop: `ZREM` of the next candidate, or return. -/
  | claiming (fetch : Fetch)
  /-- `HGET` -/
  | reading (fetch : Fetch) (messageId : String)
  /-- `HDEL` -/
  | deleting (fetch : Fetch) (messageId : String) (payload : Option WalRecord)
  /-- `ZREM` -/
  | removing (call : Nat) (messageId : String)
  /-- `HDEL` -/
  | erasing (call : Nat) (messageId : String)
  | removed (call : Nat) (messageId : String)
  deriving DecidableEq

/-- What happened, in order. `replaced` and `erased` name the payload that left
the hash under a `schedule` and under a `remove_scheduled`. -/
inductive DelayEntry where
  | stored (record : WalRecord)
  | replaced (record : WalRecord)
  | fetchBegan (call : Nat)
  | returned (call : Nat) (now : SystemTime) (records : List WalRecord)
  | removeBegan (call : Nat) (messageId : String)
  | erased (record : WalRecord)
  | removeDone (call : Nat) (messageId : String)
  deriving DecidableEq

structure DelayClients where
  store : RedisWal
  clients : List DelayClient
  history : List DelayEntry

inductive DelayEvent where
  | start (client : Nat) (call : DelayCall)
  | command (client : Nat)
  | finish (client : Nat)
  | fail (client : Nat)

namespace DelayClient

/-- A call is known by the place of its first entry in the history. -/
def start (call : Nat) : DelayClient → DelayCall → Option (DelayClient × List DelayEntry)
  | .idle, .schedule record => some (.minting record, [])
  | .idle, .fetchReady now => some (.listing call now, [.fetchBegan call])
  | .idle, .removeScheduled messageId => some (.removing call messageId, [.removeBegan call messageId])
  | _, _ => none

def command (store : RedisWal) : DelayClient → Option (DelayClient × RedisWal × List DelayEntry)
  | .minting record =>
    some (.storing { record with recordId := store.idCounter + 1 }, { store with idCounter := store.idCounter + 1 }, [])
  | .storing record =>
    if record.Encodable then
      some (.stored,
        { store with
          delays := store.delays.insert record.message.id record
          delayIndex := store.delayIndex.insert record.message.id (score (deliverAtMillis record)) },
        (store.delays.lookup record.message.id).toList.map .replaced ++ [.stored record])
    else none
  | .listing call now => some (.claiming ⟨call, now, store.dueIds now, []⟩, store, [])
  | .claiming fetch =>
    match fetch.due with
    | [] => none
    | messageId :: rest =>
      if messageId ∈ store.delayIndex then
        some (.reading { fetch with due := rest } messageId,
          { store with delayIndex := store.delayIndex.erase messageId }, [])
      else some (.claiming { fetch with due := rest }, store, [])
  | .reading fetch messageId => some (.deleting fetch messageId (store.delays.lookup messageId), store, [])
  | .deleting fetch messageId payload =>
    some (.claiming { fetch with ready := fetch.ready ++ payload.toList },
      { store with delays := store.delays.erase messageId }, [])
  | .removing call messageId =>
    some (.erasing call messageId, { store with delayIndex := store.delayIndex.erase messageId }, [])
  | .erasing call messageId =>
    some (.removed call messageId, { store with delays := store.delays.erase messageId },
      (store.delays.lookup messageId).toList.map .erased)
  | .idle | .stored | .removed _ _ => none

/-- The call returns `Ok`. -/
def finish : DelayClient → Option (List DelayEntry)
  | .stored => some []
  | .claiming ⟨call, now, [], ready⟩ => some [.returned call now ready]
  | .removed call messageId => some [.removeDone call messageId]
  | _ => none

end DelayClient

namespace DelayClients

def init (clients : Nat) : DelayClients := ⟨RedisWal.empty, List.replicate clients .idle, []⟩

def update (state : DelayClients) (index : Nat) (client : DelayClient) (store : RedisWal) (entries : List DelayEntry) :
    DelayClients :=
  ⟨store, state.clients.set index client, state.history ++ entries⟩

def step (state : DelayClients) : DelayEvent → Option DelayClients
  | .start index call => do
    let client ← state.clients[index]?
    let (next, entries) ← client.start state.history.length call
    return state.update index next state.store entries
  | .command index => do
    let client ← state.clients[index]?
    let (next, store, entries) ← client.command state.store
    return state.update index next store entries
  | .finish index => do
    let client ← state.clients[index]?
    let entries ← client.finish
    return state.update index .idle state.store entries
  | .fail index => do
    let client ← state.clients[index]?
    if client = .idle then none else return state.update index .idle state.store []

end DelayClients

end EventBase
