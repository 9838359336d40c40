import EventBase.Bootstrap
import EventBase.Proofs.WalRecords

/-! A booted node opens its WAL twice. It looks like one store up to what only the sync
handler's side has seen. -/

namespace EventBase.Proofs.SingleStore
open WalRecords List BootedNode

def isSync : WalRequest → Bool
  | .walSync _ _ _ _ => true
  | _ => false

def isRestart : WalRequest → Bool
  | .restart => true
  | _ => false

def Agrees (backend : WalBackend) (file : Option WalStore) (requests : List WalRequest) : Prop :=
  observe (step backend) (boot backend file) requests =
    observe (SharedNode.step backend) (SharedNode.boot backend file) requests

theorem replay_records (store : WalStore) (topics : Option (List String)) (clock : Nat → SystemTime) :
    (store.replay topics clock).2.records = store.records := by
  simp only [WalStore.replay]
  generalize (store.replayPending.filter (replayable topics)).zipIdx = pending
  induction pending generalizing store with
  | nil => rfl
  | cons entry rest ih =>
    rw [foldl_cons]
    split
    · exact ih _
    · exact ih _

theorem registrySide_records (store : WalStore) (request : WalRequest) :
    (store.registrySide request).1.records = store.records := by
  cases request with
  | replay topics clock => exact replay_records store topics clock
  | _ => rfl

/-- The builder handle and the file of a two-handle node carry the records of
the shared store. -/
structure SameRecords (node : BootedNode) (shared : SharedNode) : Prop where
  builder : node.builder.records = shared.store.records
  file : node.file.map WalStore.records = shared.file.map WalStore.records

theorem SameRecords.boot {file other} (same : file.map WalStore.records = other.map WalStore.records) :
    SameRecords (BootedNode.boot .persistent file) (SharedNode.boot .persistent other) := by
  refine ⟨?_, same⟩
  cases file <;> cases other <;> simp_all [BootedNode.boot, SharedNode.boot, WalBackend.openWal, PersistentWal.new]

theorem SameRecords.step {node shared} (same : SameRecords node shared) (request : WalRequest) :
    SameRecords (step .persistent node request).1 (SharedNode.step .persistent shared request).1 := by
  have kept : node.builder.records = (shared.store.registrySide request).1.records :=
    same.builder.trans (registrySide_records shared.store request).symm
  cases request with
  | walSync messageId status placeholder flushes =>
    have updated : (PersistentWal.apply node.builder (.updateState messageId status)).records =
        (PersistentWal.apply shared.store (.updateState messageId status)).records := by
      rw [persistent_records, persistent_records, same.builder]
      rfl
    refine ⟨updated, ?_⟩
    cases flushes with
    | true => exact congrArg some updated
    | false => exact same.file
  | restart => exact .boot same.file
  | _ => exact ⟨kept, same.file⟩

theorem SameRecords.afterAll {node shared} (same : SameRecords node shared) (requests : List WalRequest) :
    SameRecords (afterAll (BootedNode.step .persistent) node requests)
      (afterAll (SharedNode.step .persistent) shared requests) := by
  induction requests generalizing node shared with
  | nil => exact same
  | cons request rest ih => exact ih (same.step request)

theorem restart_records (backend : WalBackend) (file : Option WalStore) (requests : List WalRequest) :
    ((afterAll (step backend) (boot backend file) (requests ++ [.restart])).registry).records =
      ((afterAll (SharedNode.step backend) (SharedNode.boot backend file) (requests ++ [.restart])).store).records := by
  simp only [afterAll, foldl_append, foldl_cons, foldl_nil]
  cases backend with
  | memory => rfl
  | persistent => exact (((SameRecords.boot rfl).afterAll requests).step .restart).builder

theorem epoch_observations (backend : WalBackend) (epoch : List WalRequest)
    (running : ∀ request ∈ epoch, isRestart request = false) (node : BootedNode) (shared : SharedNode)
    (same : node.registry = shared.store) :
    observe (step backend) node epoch =
      observe (SharedNode.step backend) shared (epoch.filter (fun request => !isSync request)) := by
  induction epoch generalizing node shared with
  | nil => rfl
  | cons request rest ih =>
    have later := fun other member => running other (mem_cons_of_mem request member)
    cases request with
    | restart => exact absurd (running .restart mem_cons_self) (by decide)
    | walSync messageId status placeholder flushes => exact ih later _ _ same
    | _ =>
      rw [filter_cons_of_pos rfl]
      simp only [observe, step, SharedNode.step, same]
      exact congrArg _ (ih later _ ⟨_, shared.file⟩ rfl)

/-- After every history: a restart brings back the records of the single-store
node, and until the next restart replays and fetches answer as a single store
opened on the same file that is not shown the WAL-sync updates made meanwhile. -/
theorem single_store_up_to_syncs (backend : WalBackend) (file : Option WalStore) (past epoch : List WalRequest)
    (running : ∀ request ∈ epoch, isRestart request = false) :
    let node := afterAll (BootedNode.step backend) (BootedNode.boot backend file) (past ++ [.restart])
    node.registry.records =
        (afterAll (SharedNode.step backend) (SharedNode.boot backend file) (past ++ [.restart])).store.records ∧
      observe (BootedNode.step backend) node epoch =
        observe (SharedNode.step backend) (SharedNode.boot backend node.file)
          (epoch.filter (fun request => !isSync request)) := by
  intro node
  refine ⟨restart_records backend file past, epoch_observations backend epoch running node _ ?_⟩
  simp only [node, afterAll, foldl_append, foldl_cons, foldl_nil]
  rfl

section

def pendingFile : Option WalStore :=
  some (WalStore.empty.append (WalRecord.fromMsg (EMessage.new "m" 0 "t" [] .standard none)))

def completion : WalRequest := .walSync "m" .complete (EMessage.new "p" 0 "" [] .standard none) true

end

theorem completed_record_forgotten_at_restart :
    observe (BootedNode.step .persistent)
        (afterAll (BootedNode.step .persistent) (BootedNode.boot .persistent pendingFile) ([completion] ++ [.restart]))
        [.replay none fun _ => 0] = [.replayed []] :=
  (single_store_up_to_syncs .persistent pendingFile [completion] [.replay none fun _ => 0] (by decide)).2

/-- The record was completed through the builder handle; the registry handle
still replays it. -/
theorem completed_record_replayed : ¬ Agrees .persistent pendingFile [completion, .replay none fun _ => 0] := by
  unfold Agrees
  decide

end EventBase.Proofs.SingleStore
