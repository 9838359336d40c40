import EventBase.Foundations.NestedLocks
import EventBase.Recovery
import EventBase.WorkerRegistry

/-! The locks around the worker registry while `TopicRouter::replay` runs beside the
handlers that update it: the registry's own lock, that of its workers map and that of
the WAL. `replay` keeps a read guard of the registry to its end, and a broadcast makes
`send` take a second one. -/

namespace EventBase
open Foundations FairLock NestedLocks

inductive RegistryLock where
  | registry
  | workers
  | wal
  deriving DecidableEq, Repr

/-- What the locks guard. -/
structure RegistryData where
  workers : Table WorkerInfo
  wal : DelayStore

abbrev RegistryCode := Code RegistryLock RegistryData

abbrev RegistrySystem := NestedLocks.System RegistryLock RegistryData

def DelayStore.saveWorkerRegistry (registry : Table WorkerInfo) : DelayStore → DelayStore
  | .inProcess store => .inProcess (store.saveWorkerRegistry registry)
  | .redis store => .redis (store.saveWorkerRegistry registry)

namespace RegistryData

def schedule (record : WalRecord) (data : RegistryData) : RegistryData := { data with wal := data.wal.schedule record }

def save (data : RegistryData) : RegistryData := { data with wal := data.wal.saveWorkerRegistry data.workers }

end RegistryData

/-- The handlers take the write lock of the registry, the clean-up loop the read lock. -/
def RegistryCall.mode : RegistryCall → Mode
  | .register _ | .unregister _ | .heartbeat _ => .write
  | .cleanupStale _ _ => .read

/-- A change of the workers map, which `save_worker_registry` then copies into the WAL. -/
def RegistryCall.code (call : RegistryCall) (clock : SystemTime) : RegistryCode :=
  .acquire .registry call.mode id fun _ =>
    .guard .workers .write (fun data => { data with workers := (WorkerRegistry.apply call clock data.workers).1 }) fun _ =>
      .acquire .workers .read id fun _ =>
        .guard .wal .write RegistryData.save fun _ => .release .workers (.release .registry .done)

section
variable (env : Env)

/-- The part of `send` that takes locks: a broadcast looks up its recipients. -/
def sendCode (msg : EMessage) (rest : RegistryCode) : RegistryCode :=
  if msg.deliveryMode = .broadcast ∧ env.nodeType ≠ .worker then
    .acquire .registry .read id fun _ => .guard .workers .read id fun _ => .release .registry rest
  else rest

/-- A message whose time has not come at the given reading of the clock. -/
def inFuture (msg : EMessage) (tick : Nat) : Bool := msg.deliverAt.any fun deliverAt => env.clock tick < deliverAt

/-- The loop of `replay`; only a message with a time makes it read the clock. -/
def replayLoop : List WalRecord → Nat → Nat → RegistryCode
  | [], _, _ => .release .registry .done
  | record :: rest, ticks, schedules =>
    let next := ticks + record.message.deliverAt.toList.length
    if inFuture env record.message ticks = true then
      if (env.schedules schedules).isSome then .guard .wal .write id fun _ => .release .registry .done
      else .guard .wal .write (RegistryData.schedule (WalRecord.fromMsg record.message)) fun _ =>
        replayLoop rest next (schedules + 1)
    else sendCode env record.message (replayLoop rest next schedules)

/-- `readable` tells whether the WAL returns its pending records. -/
def replayCode (topics : Option (List String)) (readable : Bool) : RegistryCode :=
  .acquire .registry .read id fun _ =>
    .guard .wal .write id fun data =>
      if readable then replayLoop env (data.wal.replayPending.filter (replayable topics)) 0 0 else .release .registry .done

end

/-- A replay and calls on the registry that are about to run; the replay is task 0. -/
def RegistrySystem.start (env : Env) (topics : Option (List String)) (readable : Bool) (data : RegistryData)
    (calls : List (RegistryCall × SystemTime)) : RegistrySystem where
  data := data
  codes := replayCode env topics readable :: calls.map fun call => call.1.code call.2

end EventBase
