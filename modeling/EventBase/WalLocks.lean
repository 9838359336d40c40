import EventBase.Bootstrap
import EventBase.Foundations.NestedLocks

/-! The locks inside `MemoryWal` and `PersistentWal`. Clones of a WAL share them, so
calls on different clones run side by side. A guard lives to the end of its scope, one
that is a temporary to the end of its statement. -/

namespace EventBase
open Foundations FairLock NestedLocks

inductive WalLock where
  | idCounter
  | records
  | delays
  | workerRegistry
  deriving DecidableEq, Repr

abbrev WalCode := Code WalLock WalStore

abbrev WalSystem := NestedLocks.System WalLock WalStore

/-- `placeholder` is the message the memory backend makes up for an unknown id. -/
inductive WalMethod where
  | append (record : WalRecord)
  | updateState (messageId : String) (status : WalRecordState) (placeholder : EMessage)
  | replayPending
  | flush
  | schedule (record : WalRecord)
  | fetchReady (now : SystemTime)
  | removeScheduled (messageId : String)
  | saveWorkerRegistry (registry : Table WorkerInfo)
  | loadWorkerRegistry

namespace WalStore

def countUp (store : WalStore) : WalStore := { store with idCounter := store.idCounter + 1 }

/-- The record gets the number the counter shows. -/
def putRecord (record : WalRecord) (store : WalStore) : WalStore :=
  { store with records := store.records.insert record.message.id { record with recordId := store.idCounter } }

def putDelay (record : WalRecord) (store : WalStore) : WalStore :=
  { store with delays := store.delays.insert record.message.id { record with recordId := store.idCounter } }

/-- `get_mut` and the new status, where there is a record. -/
def setStatus (messageId : String) (status : WalRecordState) (store : WalStore) : WalStore :=
  match store.records.lookup messageId with
  | some record => { store with records := Table.setStatus store.records messageId record status }
  | none => store

def putPlaceholder (messageId : String) (status : WalRecordState) (placeholder : EMessage) (store : WalStore) : WalStore :=
  { store with
    idCounter := store.idCounter + 1
    records := store.records.insert messageId
      { WalRecord.fromMsg placeholder with recordId := store.idCounter + 1, status := status } }

end WalStore

namespace WalMethod
open WalStore

def appendCode (record : WalRecord) : WalCode :=
  .acquire .idCounter .write countUp fun _ =>
    .guard .records .write (putRecord record) fun _ => .release .idCounter .done

def scheduleCode (record : WalRecord) : WalCode :=
  .acquire .idCounter .write countUp fun _ =>
    .guard .delays .write (putDelay record) fun _ => .release .idCounter .done

/-- Only the memory backend numbers a record for an unknown id. -/
def updateStateCode (messageId : String) (status : WalRecordState) (placeholder : EMessage) : WalBackend → WalCode
  | .memory =>
    .acquire .records .write (setStatus messageId status) fun store =>
      if messageId ∈ store.records then .release .records .done
      else .guard .idCounter .write (putPlaceholder messageId status placeholder) fun _ => .release .records .done
  | .persistent => .guard .records .write (setStatus messageId status) fun _ => .done

/-- The four guards are temporaries of one `let`, so they are all held at its end. -/
def flushCode : WalBackend → WalCode
  | .memory => .done
  | .persistent =>
    .acquire .records .read id fun _ =>
      .acquire .delays .read id fun _ =>
        .acquire .workerRegistry .read id fun _ =>
          .guard .idCounter .write id fun _ => .release .workerRegistry (.release .delays (.release .records .done))

/-- `MemoryWal` takes the write lock to read the registry. -/
def loadMode : WalBackend → Mode
  | .memory => .write
  | .persistent => .read

def code (backend : WalBackend) : WalMethod → WalCode
  | .append record => appendCode record
  | .updateState messageId status placeholder => updateStateCode messageId status placeholder backend
  | .replayPending => .guard .records .read id fun _ => .done
  | .flush => flushCode backend
  | .schedule record => scheduleCode record
  | .fetchReady now => .guard .delays .write (fun store => (store.fetchReady now).2) fun _ => .done
  | .removeScheduled messageId => .guard .delays .write (fun store => store.removeScheduled messageId) fun _ => .done
  | .saveWorkerRegistry registry =>
    .guard .workerRegistry .write (fun store => store.saveWorkerRegistry registry) fun _ => .done
  | .loadWorkerRegistry => .guard .workerRegistry (loadMode backend) id fun _ => .done

/-- What the call leaves behind when nothing else runs. -/
def alone (backend : WalBackend) : WalMethod → WalStore → WalStore
  | .append record => fun store => store.append record
  | .updateState messageId status placeholder => fun store => backend.updateState store messageId status placeholder
  | .schedule record => fun store => store.schedule record
  | .fetchReady now => fun store => (store.fetchReady now).2
  | .removeScheduled messageId => fun store => store.removeScheduled messageId
  | .saveWorkerRegistry registry => fun store => store.saveWorkerRegistry registry
  | .replayPending | .flush | .loadWorkerRegistry => id

end WalMethod

/-- A WAL on whose clones the calls are about to run. -/
def WalSystem.start (backend : WalBackend) (store : WalStore) (methods : List WalMethod) : WalSystem where
  data := store
  codes := methods.map (WalMethod.code backend)

end EventBase
