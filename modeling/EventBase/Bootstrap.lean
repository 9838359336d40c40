import EventBase.SystemHandlers

/-! A booted node's WAL traffic. `Bootstrap::build_wal` opens one handle for the
registry and router side and a second one for the WAL-sync handler; `SharedNode`
is the node whose sides share a single handle. -/

namespace EventBase

inductive WalBackend where
  | memory
  | persistent
  deriving DecidableEq, Repr

namespace WalBackend

def openWal (file : Option WalStore) : WalBackend → WalStore
  | .memory => WalStore.empty
  | .persistent => PersistentWal.new file

def updateState (store : WalStore) (messageId : String) (status : WalRecordState) (placeholder : EMessage) :
    WalBackend → WalStore
  | .memory => MemoryWal.updateState store messageId status placeholder
  | .persistent => PersistentWal.apply store (.updateState messageId status)

def flush (store : WalStore) (flushes : Bool) (file : Option WalStore) : WalBackend → Option WalStore
  | .memory => file
  | .persistent => if flushes then PersistentWal.flush store else file

end WalBackend

/-- Calls on a node's WAL, and restarts. `replay` reads the clock once per
record; `placeholder` is the message the memory backend makes up for an unknown
id; `flushes` says whether the write to disk succeeds. -/
inductive WalRequest where
  | schedule (record : WalRecord)
  | saveWorkerRegistry (registry : Table WorkerInfo)
  | replay (topics : Option (List String)) (clock : Nat → SystemTime)
  | fetchReady (now : SystemTime)
  | walSync (messageId : String) (status : WalRecordState) (placeholder : EMessage) (flushes : Bool)
  | restart

inductive WalResult where
  | replayed (records : List WalRecord)
  | fetched (records : List WalRecord)
  | loaded (registry : Table WorkerInfo)
  deriving DecidableEq

def replayable (topics : Option (List String)) (record : WalRecord) : Bool :=
  match topics with
  | some allowed => allowed.contains record.message.topic
  | none => true

def WalRecord.inFuture (now : SystemTime) (record : WalRecord) : Bool :=
  match record.message.deliverAt with
  | some deliverAt => decide (now < deliverAt)
  | none => false

/-- `TopicRouter::replay` on the store it reads: records still in the future are
scheduled again, the others are sent. -/
def WalStore.replay (store : WalStore) (topics : Option (List String)) (clock : Nat → SystemTime) :
    List WalRecord × WalStore :=
  let pending := store.replayPending.filter (replayable topics)
  (pending, pending.zipIdx.foldl
    (fun store (record, index) =>
      if record.inFuture (clock index) then store.schedule (WalRecord.fromMsg record.message) else store) store)

/-- The part of the traffic that the registry and router side issue. -/
def WalStore.registrySide (store : WalStore) : WalRequest → WalStore × Option WalResult
  | .schedule record => (store.schedule record, none)
  | .saveWorkerRegistry registry => (store.saveWorkerRegistry registry, none)
  | .replay topics clock => ((store.replay topics clock).2, some (.replayed (store.replay topics clock).1))
  | .fetchReady now => ((store.fetchReady now).2, some (.fetched (store.fetchReady now).1))
  | .walSync _ _ _ _ | .restart => (store, none)

structure BootedNode where
  registry : WalStore
  builder : WalStore
  file : Option WalStore

namespace BootedNode

def boot (backend : WalBackend) (file : Option WalStore) : BootedNode :=
  ⟨backend.openWal file, backend.openWal file, file⟩

def step (backend : WalBackend) (node : BootedNode) : WalRequest → BootedNode × Option WalResult
  | .walSync messageId status placeholder flushes =>
    let builder := backend.updateState node.builder messageId status placeholder
    ({ node with builder := builder, file := backend.flush builder flushes node.file }, none)
  | .restart => (boot backend node.file, some (.loaded (backend.openWal node.file).loadWorkerRegistry))
  | request =>
    let (registry, result) := node.registry.registrySide request
    ({ node with registry := registry }, result)

end BootedNode

structure SharedNode where
  store : WalStore
  file : Option WalStore

namespace SharedNode

def boot (backend : WalBackend) (file : Option WalStore) : SharedNode := ⟨backend.openWal file, file⟩

def step (backend : WalBackend) (node : SharedNode) : WalRequest → SharedNode × Option WalResult
  | .walSync messageId status placeholder flushes =>
    let store := backend.updateState node.store messageId status placeholder
    (⟨store, backend.flush store flushes node.file⟩, none)
  | .restart => (boot backend node.file, some (.loaded (backend.openWal node.file).loadWorkerRegistry))
  | request =>
    let (store, result) := node.store.registrySide request
    ({ node with store := store }, result)

end SharedNode

section
variable {σ ε ρ : Type} (step : σ → ε → σ × Option ρ)

def afterAll (state : σ) (requests : List ε) : σ := requests.foldl (fun state request => (step state request).1) state

/-- The results the requests return, in order. -/
def observe (state : σ) : List ε → List ρ
  | [] => []
  | request :: rest => (step state request).2.toList ++ observe (step state request).1 rest

end

end EventBase
