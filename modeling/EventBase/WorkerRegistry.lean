import EventBase.Foundations.SnapshotSave
import EventBase.Wal

/-! The worker registry. Each call changes the map under its write lock and then
saves a copy of the map in the WAL, holding the read lock and the WAL's lock. -/

namespace EventBase
open Foundations

/-- The WAL the registry saves itself in. The memory and the file-backed WAL keep it in a `WalStore`. -/
inductive RegistryWal where
  | inProcess (store : WalStore)
  | redis (store : RedisWal)

namespace RegistryWal

def saveWorkerRegistry (registry : Table WorkerInfo) : RegistryWal → RegistryWal
  | .inProcess store => .inProcess (store.saveWorkerRegistry registry)
  | .redis store => .redis (store.saveWorkerRegistry registry)

def loadWorkerRegistry : RegistryWal → Table WorkerInfo
  | .inProcess store => store.loadWorkerRegistry
  | .redis store => store.loadWorkerRegistry

theorem load_save (wal : RegistryWal) (registry : Table WorkerInfo) :
    (wal.saveWorkerRegistry registry).loadWorkerRegistry = registry := by
  cases wal <;> rfl

end RegistryWal

/-- `cleanup_stale` reads the clock before it waits for the lock. -/
inductive RegistryCall where
  | register (info : WorkerInfo)
  | unregister (workerId : String)
  | heartbeat (workerId : String)
  | cleanupStale (now : SystemTime) (timeout : Duration)
  deriving DecidableEq

inductive RegistryReply where
  | done
  | removed (workerIds : List String)
  deriving DecidableEq

def Duration.max : Duration := 2 ^ 64 * 1000000000 - 1

namespace WorkerRegistry

def register (workers : Table WorkerInfo) (info : WorkerInfo) : Table WorkerInfo := workers.insert info.workerName info

def unregister (workers : Table WorkerInfo) (workerId : String) : Table WorkerInfo := workers.erase workerId

def heartbeat (workers : Table WorkerInfo) (workerId : String) (now : SystemTime) : Table WorkerInfo :=
  match workers.lookup workerId with
  | some info => workers.insert workerId { info with lastHeartbeat := now }
  | none => workers

/-- A heartbeat later than `now` counts as infinitely old. -/
def elapsed (now : SystemTime) (info : WorkerInfo) : Duration :=
  match durationSince now info.lastHeartbeat with
  | .ok elapsed => elapsed
  | .error _ => Duration.max

def stale (workers : Table WorkerInfo) (now : SystemTime) (timeout : Duration) : List String :=
  (workers.entries.filter fun entry => timeout < elapsed now entry.2).map Sigma.fst

def cleanupStale (workers : Table WorkerInfo) (now : SystemTime) (timeout : Duration) : Table WorkerInfo :=
  (stale workers now timeout).foldl (fun workers workerId => workers.erase workerId) workers

/-- The part of a call that runs under the write lock; `clock` is what it reads there. -/
def apply (call : RegistryCall) (clock : SystemTime) (workers : Table WorkerInfo) : Table WorkerInfo × RegistryReply :=
  match call with
  | .register info => (register workers info, .done)
  | .unregister workerId => (unregister workers workerId, .done)
  | .heartbeat workerId => (heartbeat workers workerId clock, .done)
  | .cleanupStale now timeout => (cleanupStale workers now timeout, .removed (stale workers now timeout))

def machine : SnapshotSave.Machine RegistryWal (Table WorkerInfo) RegistryCall SystemTime RegistryReply where
  apply := apply
  save wal registry := wal.saveWorkerRegistry registry
  load := RegistryWal.loadWorkerRegistry
  load_save := RegistryWal.load_save

abbrev System := SnapshotSave.System RegistryWal (Table WorkerInfo) RegistryCall SystemTime RegistryReply CoreError

abbrev Event := SnapshotSave.Event RegistryCall SystemTime CoreError

/-- `WorkerRegistry::init` starts from what the WAL holds. -/
def init (wal : RegistryWal) : System := SnapshotSave.init machine wal

def step (system : System) (event : Event) : Option System := system.step machine event

/-- The map updates of the calls, one after the other. -/
def applyAll (workers : Table WorkerInfo) (changes : List (SnapshotSave.Applied RegistryCall SystemTime)) :
    Table WorkerInfo :=
  changes.foldl (fun workers change => (apply change.call change.input workers).1) workers

end WorkerRegistry

/-- The messages of the heartbeat loop. -/
inductive Announcement where
  | discovery (workerName topic : String)
  | heartbeat (workerName : String)

/-- `heartbeat_once`, for the names and topics of the node's workers and the names it
finds in its registry. -/
def heartbeatOnce (reannounce : Bool) (workers : List (String × String)) (registered : List String) : List Announcement :=
  let workers := workers.filter fun worker => !isSystemTopic worker.2
  let missing := if reannounce then (workers.filter fun worker => worker.1 ∉ registered).map Prod.fst else []
  workers.flatMap fun (workerName, topic) =>
    (if reannounce && decide (workerName ∈ missing) then [.discovery workerName topic] else []) ++ [.heartbeat workerName]

/-- What the handler of the message calls. -/
def Announcement.call (now : SystemTime) : Announcement → RegistryCall
  | .discovery workerName topic => .register ⟨workerName, topic, now⟩
  | .heartbeat workerName => .heartbeat workerName

end EventBase
