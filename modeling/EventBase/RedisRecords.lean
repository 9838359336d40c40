import EventBase.Foundations.AtomicObject
import EventBase.Wal

/-! Several clients of one Redis prefix running `append`, `update_state` and
`replay_pending`, interleaved at single commands. No command fails, and the records encode. -/

namespace EventBase
open Foundations

inductive RecordCall where
  | append (record : WalRecord)
  | updateState (messageId : String) (status : WalRecordState)
  | replayPending

/-- Where a client stands, named after the command it issues next. -/
inductive RecordClient where
  | idle
  /-- `INCR` -/
  | minting (call : Nat) (record : WalRecord)
  /-- `HSET` of the record under its new id -/
  | storing (call : Nat) (record : WalRecord) (recordId : Nat)
  /-- `HGET` -/
  | reading (call : Nat) (messageId : String) (status : WalRecordState)
  /-- `HSET` of the record that was read, with the new status -/
  | writing (call : Nat) (messageId : String) (status : WalRecordState) (record : WalRecord)
  /-- `HGETALL` -/
  | listing (call : Nat)
  | answered (call : Nat) (op : RecordCall) (reply : WalReply)

structure RecordClients where
  store : RedisWal
  clients : List RecordClient
  history : List (CallEvent RecordCall WalReply)

inductive RecordEvent where
  | start (client : Nat) (op : RecordCall)
  | command (client : Nat)
  | finish (client : Nat)

namespace RecordClient

def start (call : Nat) : RecordClient → RecordCall → Option RecordClient
  | .idle, .append record => if record.Encodable then some (.minting call record) else none
  | .idle, .updateState messageId status => some (.reading call messageId status)
  | .idle, .replayPending => some (.listing call)
  | _, _ => none

def command (store : RedisWal) : RecordClient → Option (RecordClient × RedisWal)
  | .minting call record =>
    some (.storing call record (store.idCounter + 1), { store with idCounter := store.idCounter + 1 })
  | .storing call record recordId =>
    some (.answered call (.append record) .done,
      { store with records := store.records.insert record.message.id { record with recordId := recordId } })
  | .reading call messageId status =>
    match store.records.lookup messageId with
    | some record => some (.writing call messageId status record, store)
    | none =>
      some (.answered call (.updateState messageId status) (.failed (.wal (.recordNotFound messageId))), store)
  | .writing call messageId status record =>
    some (.answered call (.updateState messageId status) .done,
      { store with records := Table.setStatus store.records messageId record status })
  | .listing call => some (.answered call .replayPending (.records store.replayPending), store)
  | .idle | .answered _ _ _ => none

end RecordClient

namespace RecordClients

def init (store : RedisWal) (clients : Nat) : RecordClients := ⟨store, List.replicate clients .idle, []⟩

def step (state : RecordClients) : RecordEvent → Option RecordClients
  | .start index op => do
    let client ← state.clients[index]?
    let next ← client.start state.history.length op
    return ⟨state.store, state.clients.set index next, state.history ++ [.invoke state.history.length op]⟩
  | .command index => do
    let client ← state.clients[index]?
    let (next, store) ← client.command state.store
    return ⟨store, state.clients.set index next, state.history⟩
  | .finish index => do
    let client ← state.clients[index]?
    match client with
    | .answered call _ reply =>
      return ⟨state.store, state.clients.set index .idle, state.history ++ [.respond call reply]⟩
    | _ => none

end RecordClients

end EventBase
