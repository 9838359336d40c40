import EventBase.Foundations.Precision
import EventBase.Message

/-! The write-ahead log. The in-process backends keep one `WalStore` behind
locks and every call is a function of that store; the Redis backend keeps the
same data in four keys. Serialised values are represented by what they decode to. -/

namespace EventBase
open Foundations

inductive WalRecordState where
  | pending
  | processing
  | complete
  | failed
  deriving DecidableEq, Repr

structure WalRecord where
  recordId : Nat
  message : EMessage
  status : WalRecordState
  lastAttemptAt : Option SystemTime
  isDeadLetter : Bool
  deadReason : Option DeadReason
  deriving DecidableEq, Repr

def WalRecord.fromMsg (message : EMessage) : WalRecord where
  recordId := 0
  message := message
  status := .pending
  lastAttemptAt := none
  isDeadLetter := false
  deadReason := none

def WalRecord.due (now : SystemTime) (record : WalRecord) : Bool :=
  match record.message.deliverAt with
  | some deliverAt => decide (deliverAt ≤ now)
  | none => false

/-- A hash map from strings. Iteration order carries no meaning. -/
abbrev Table (α : Type) := AList (fun _ : String => α)

def Table.values {α : Type} (table : Table α) : List α := table.entries.map Sigma.snd

structure WalStore where
  records : Table WalRecord
  delays : Table WalRecord
  workerRegistry : Table WorkerInfo
  idCounter : Nat
  deriving DecidableEq

namespace WalStore

def empty : WalStore := ⟨∅, ∅, ∅, 0⟩

def append (store : WalStore) (record : WalRecord) : WalStore :=
  { store with
    idCounter := store.idCounter + 1
    records := store.records.insert record.message.id { record with recordId := store.idCounter + 1 } }

def replayPending (store : WalStore) : List WalRecord :=
  (Table.values store.records).filter (fun record => record.status = .pending)

def schedule (store : WalStore) (record : WalRecord) : WalStore :=
  { store with
    idCounter := store.idCounter + 1
    delays := store.delays.insert record.message.id { record with recordId := store.idCounter + 1 } }

def fetchReady (store : WalStore) (now : SystemTime) : List WalRecord × WalStore :=
  let ready := store.delays.entries.filter (fun entry => entry.2.due now)
  (ready.map Sigma.snd,
    { store with delays := ready.foldl (fun delays entry => delays.erase entry.1) store.delays })

def removeScheduled (store : WalStore) (messageId : String) : WalStore :=
  { store with delays := store.delays.erase messageId }

def saveWorkerRegistry (store : WalStore) (registry : Table WorkerInfo) : WalStore :=
  { store with workerRegistry := registry }

def loadWorkerRegistry (store : WalStore) : Table WorkerInfo := store.workerRegistry

end WalStore

/-- `record.status = status` through `get_mut` on a record that exists. -/
def Table.setStatus (records : Table WalRecord) (messageId : String) (record : WalRecord)
    (status : WalRecordState) : Table WalRecord :=
  records.insert messageId { record with status := status }

/-- An unknown id gets a placeholder record around a message the backend makes
up, here an argument. -/
def MemoryWal.updateState (store : WalStore) (messageId : String) (status : WalRecordState)
    (placeholder : EMessage) : WalStore :=
  match store.records.lookup messageId with
  | some record => { store with records := Table.setStatus store.records messageId record status }
  | none =>
    { store with
      idCounter := store.idCounter + 1
      records := store.records.insert messageId
        { WalRecord.fromMsg placeholder with recordId := store.idCounter + 1, status := status } }

def PersistentWal.updateState (store : WalStore) (messageId : String) (status : WalRecordState) :
    Except CoreError WalStore :=
  match store.records.lookup messageId with
  | some record => .ok { store with records := Table.setStatus store.records messageId record status }
  | none => .error (.wal (.recordNotFound messageId))

/-- The calls of the `Wal` trait that change a store. -/
inductive WalOp where
  | append (record : WalRecord)
  | updateState (messageId : String) (status : WalRecordState)
  | schedule (record : WalRecord)
  | fetchReady (now : SystemTime)
  | removeScheduled (messageId : String)
  | saveWorkerRegistry (registry : Table WorkerInfo)

/-- The store after one call; a call that fails leaves it as it was. -/
def PersistentWal.apply (store : WalStore) : WalOp → WalStore
  | .append record => store.append record
  | .updateState messageId status =>
    match PersistentWal.updateState store messageId status with
    | .ok updated => updated
    | .error _ => store
  | .schedule record => store.schedule record
  | .fetchReady now => (store.fetchReady now).2
  | .removeScheduled messageId => store.removeScheduled messageId
  | .saveWorkerRegistry registry => store.saveWorkerRegistry registry

/-- The file holds the store of the last completed flush, if there was one. -/
def PersistentWal.new (file : Option WalStore) : WalStore := file.getD WalStore.empty

def PersistentWal.flush (store : WalStore) : Option WalStore := some store

/-- The keys `records`, `delays`, `delay_index`, `registry` and `id_counter` of
one prefix. -/
structure RedisWal where
  records : Table WalRecord
  delays : Table WalRecord
  delayIndex : Table Int
  registry : Option (Table WorkerInfo)
  idCounter : Nat
  deriving DecidableEq

/-- `as_millis` of the time since the epoch; an earlier time counts as the epoch. -/
def millis (time : SystemTime) : Int := if time < 0 then 0 else time / 1000000

/-- `as i64` keeps the low 64 bits. -/
def asI64 (value : Int) : Int := value.bmod (2 ^ 64)

def nowMillis (now : SystemTime) : Int := asI64 (millis now)

/-- Records without a deadline get `i64::MAX`. -/
def deliverAtMillis (record : WalRecord) : Int :=
  match record.message.deliverAt with
  | some deliverAt => asI64 (millis deliverAt)
  | none => 2 ^ 63 - 1

/-- A sorted set keeps its scores, and the bounds it compares them with, as doubles. -/
def score (value : Int) : Int := roundToPrecision 53 value

/-- What bincode encodes: no time is before the epoch. A call with any other record fails
after the counter went up and stores nothing, so `append` and `schedule` model the calls
with one that encodes. -/
def WalRecord.Encodable (record : WalRecord) : Prop :=
  ∀ time ∈ record.message.metadata.createdAt :: (record.message.deliverAt.toList ++ record.lastAttemptAt.toList), 0 ≤ time

instance (record : WalRecord) : Decidable record.Encodable := inferInstanceAs (Decidable (∀ _ ∈ _, _))

namespace RedisWal

def empty : RedisWal := ⟨∅, ∅, ∅, none, 0⟩

def append (store : RedisWal) (record : WalRecord) : RedisWal :=
  { store with
    idCounter := store.idCounter + 1
    records := store.records.insert record.message.id { record with recordId := store.idCounter + 1 } }

def updateState (store : RedisWal) (messageId : String) (status : WalRecordState) :
    Except CoreError RedisWal :=
  match store.records.lookup messageId with
  | some record => .ok { store with records := Table.setStatus store.records messageId record status }
  | none => .error (.wal (.recordNotFound messageId))

def replayPending (store : RedisWal) : List WalRecord :=
  ((Table.values store.records).filter (fun record => record.status = .pending)).mergeSort
    (fun first second => first.recordId ≤ second.recordId)

def schedule (store : RedisWal) (record : WalRecord) : RedisWal :=
  { store with
    idCounter := store.idCounter + 1
    delays := store.delays.insert record.message.id { record with recordId := store.idCounter + 1 }
    delayIndex := store.delayIndex.insert record.message.id (score (deliverAtMillis record)) }

/-- One candidate of `fetch_ready`: `ZREM`, then `HGET` and `HDEL` when it won. -/
def claimDue (state : List WalRecord × RedisWal) (messageId : String) : List WalRecord × RedisWal :=
  let (ready, store) := state
  if messageId ∈ store.delayIndex then
    (ready ++ (store.delays.lookup messageId).toList,
      { store with delayIndex := store.delayIndex.erase messageId, delays := store.delays.erase messageId })
  else (ready, store)

def fetchReady (store : RedisWal) (now : SystemTime) : List WalRecord × RedisWal :=
  let due := store.delayIndex.entries.filter (fun entry => entry.2 ≤ score (nowMillis now))
  (due.map Sigma.fst).foldl claimDue ([], store)

def removeScheduled (store : RedisWal) (messageId : String) : RedisWal :=
  { store with delayIndex := store.delayIndex.erase messageId, delays := store.delays.erase messageId }

def saveWorkerRegistry (store : RedisWal) (registry : Table WorkerInfo) : RedisWal :=
  { store with registry := some registry }

def loadWorkerRegistry (store : RedisWal) : Table WorkerInfo := store.registry.getD ∅

def apply (store : RedisWal) : WalOp → RedisWal
  | .append record => store.append record
  | .updateState messageId status =>
    match store.updateState messageId status with
    | .ok updated => updated
    | .error _ => store
  | .schedule record => store.schedule record
  | .fetchReady now => (store.fetchReady now).2
  | .removeScheduled messageId => store.removeScheduled messageId
  | .saveWorkerRegistry registry => store.saveWorkerRegistry registry

end RedisWal

/-- Everything one client can ask of a `Wal`: the calls that change it and the
two that only read. -/
inductive WalCall where
  | change (op : WalOp)
  | replayPending
  | loadWorkerRegistry

inductive WalReply where
  | done
  | records (records : List WalRecord)
  | registry (workers : Table WorkerInfo)
  | failed (error : CoreError)

def PersistentWal.call (store : WalStore) : WalCall → WalReply × WalStore
  | .change (.updateState messageId status) =>
    match PersistentWal.updateState store messageId status with
    | .ok updated => (.done, updated)
    | .error error => (.failed error, store)
  | .change (.fetchReady now) => (.records (store.fetchReady now).1, (store.fetchReady now).2)
  | .change op => (.done, PersistentWal.apply store op)
  | .replayPending => (.records store.replayPending, store)
  | .loadWorkerRegistry => (.registry store.loadWorkerRegistry, store)

def RedisWal.call (store : RedisWal) : WalCall → WalReply × RedisWal
  | .change (.updateState messageId status) =>
    match store.updateState messageId status with
    | .ok updated => (.done, updated)
    | .error error => (.failed error, store)
  | .change (.fetchReady now) => (.records (store.fetchReady now).1, (store.fetchReady now).2)
  | .change op => (.done, store.apply op)
  | .replayPending => (.records store.replayPending, store)
  | .loadWorkerRegistry => (.registry store.loadWorkerRegistry, store)

/-- The status report a worker publishes on `_system.wal_sync`. -/
structure WalSyncMessage where
  messageId : String
  topic : String
  workerId : String
  status : WalRecordState
  attempts : UInt32
  lastAttemptAt : SystemTime
  error : Option String
  timestamp : SystemTime
  deriving DecidableEq, Repr

end EventBase
