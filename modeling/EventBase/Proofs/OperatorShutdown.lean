import EventBase.OperatorShutdown
import EventBase.Proofs.NodeProgress
import EventBase.Proofs.ShutdownCompletion

/-! When a shutdown command does what the operator asked. Whoever keeps a guard of the
router keeps every worker alive. The removal loops are those of `ShutdownMethods`. -/

namespace EventBase.Proofs.OperatorShutdown
open WorkerSet Foundations Foundations.FairLock List

variable {workers : WorkerSet}

def survives (workers : WorkerSet) : OperatorStrategy → String → Prop
  | .stateBasedIdle, name => name ∈ workers.names ∧ workers.working name = true
  | .graceful named _, name => name ∈ workers.names ∧ name ≠ named
  | .twoStage .., _ | .timeout _, _ | .force, _ | .batched .., _ => False

/-- The command is accepted as it was given, acknowledged, and leaves just these workers. -/
def Obeyed (workers : WorkerSet) (asked : OperatorStrategy) : Prop :=
  EventBaseService.shutdown (some asked) = .ok asked ∧
    ∃ left, workers.handle asked = .ack left ∧ ∀ name, name ∈ left ↔ survives workers asked name

/-- The strategy is not `Timeout`, the guards that it needs are granted, batches have a
size, a worker to be shut down gracefully comes to rest and its shutdown call succeeds,
and so do all of them in a two-stage shutdown whose first stage runs out of time. -/
def Heeded (workers : WorkerSet) (asked : OperatorStrategy) : Prop :=
  workers.readable = true ∧ match asked with
    | .timeout _ => False
    | .force => workers.mayRemove workers.names = true
    | .stateBasedIdle => workers.mayRemove (workers.names.filter fun name => !workers.working name) = true
    | .batched batchSize _ => batchSize ≠ 0 ∧ workers.mayRemove workers.names = true
    | .graceful name _ =>
      name ∈ workers.names → workers.rests name = true ∧ workers.fails name = false ∧ workers.writable = true
    | .twoStage .. => workers.mayRemove workers.names = true ∧
      (workers.complete = true ∨ ∀ name ∈ workers.names, workers.fails name = false)

theorem mem_delete {left name other} : name ∈ delete left other ↔ name ∈ left ∧ name ≠ other := by
  rw [delete, mem_filter, decide_eq_true_iff]

theorem mem_foldl_delete (spared : String → Bool) (names left : List String) (name : String) :
    name ∈ names.foldl (fun left name => if spared name then left else delete left name) left ↔
      name ∈ left ∧ (name ∈ names → spared name = true) := by
  induction names generalizing left with
  | nil => simp
  | cons first rest ih =>
    rw [foldl_cons, ih]
    by_cases kept : spared first = true
    · rw [if_pos kept, mem_cons]
      refine and_congr_right fun _ => ⟨fun later => ?_, fun all among => all (.inr among)⟩
      rintro (rfl | among)
      · exact kept
      · exact later among
    · rw [if_neg kept, mem_delete, mem_cons, and_assoc]
      refine and_congr_right fun _ => ⟨fun ⟨different, later⟩ among => later (among.resolve_left different), fun all => ?_⟩
      exact ⟨fun same => kept (same ▸ all (.inl same)), fun among => all (.inr among)⟩

theorem mem_deleteAll (left names : List String) (name : String) : name ∈ deleteAll left names ↔ name ∈ left ∧ name ∉ names :=
  (mem_foldl_delete (fun _ => false) names left name).trans (and_congr_right fun _ => by simp)

theorem mem_cleared (names : List String) (name : String) : name ∈ deleteAll names names ↔ False := by
  rw [mem_deleteAll, and_not_self_iff]

theorem removeStrictly_all {names} (succeed : ∀ name ∈ names, workers.fails name = false) (left : List String) :
    workers.removeStrictly left names = deleteAll left names := by
  induction names generalizing left with
  | nil => rfl
  | cons first rest ih =>
    rw [removeStrictly, succeed first mem_cons_self]
    exact ih (fun name among => succeed name (mem_cons_of_mem _ among)) _

theorem removeStrictly_leaves {names left} (among : ∃ name ∈ names, workers.fails name = true)
    (present : ∀ name ∈ names, workers.fails name = true → name ∈ left) : ∃ name, name ∈ workers.removeStrictly left names := by
  induction names generalizing left with
  | nil => simp at among
  | cons first rest ih =>
    rw [removeStrictly]
    split
    · next fails => exact ⟨first, present first mem_cons_self fails⟩
    · next succeeds =>
      obtain ⟨name, member, fails⟩ := among
      obtain rfl | later := mem_cons.mp member
      · exact absurd fails succeeds
      · refine ih ⟨name, later, fails⟩ fun other among failing => mem_delete.mpr ⟨?_, ?_⟩
        · exact present other (mem_cons_of_mem _ among) failing
        · rintro rfl
          exact succeeds failing

theorem removing_ack_iff (removals left kept : List String) :
    workers.removing removals left = .ack kept ↔ workers.mayRemove removals = true ∧ left = kept := by
  rw [removing]
  split
  · next granted => simp [granted]
  · next refused => simp [refused]

theorem obeyed_iff {asked removals left}
    (accepted : EventBaseService.shutdown (some asked) = .ok asked) (ends : workers.handle asked = workers.removing removals left)
    (exact_ : ∀ name, name ∈ left ↔ survives workers asked name) :
    Obeyed workers asked ↔ workers.mayRemove removals = true := by
  simp only [Obeyed, accepted, ends, removing_ack_iff, true_and]
  constructor
  · rintro ⟨_, ⟨granted, rfl⟩, _⟩
    exact granted
  · exact fun granted => ⟨left, ⟨granted, rfl⟩, exact_⟩

theorem cleared_iff {asked} (accepted : EventBaseService.shutdown (some asked) = .ok asked)
    (all : ∀ name, survives workers asked name ↔ False)
    (ends : workers.handle asked = workers.removing workers.names (deleteAll workers.names workers.names)) :
    Obeyed workers asked ↔ workers.mayRemove workers.names = true :=
  obeyed_iff accepted ends fun name => (mem_cleared workers.names name).trans (all name).symm

section
variable (readable : workers.readable = true)
include readable

theorem late_twoStage_obeyed_iff (late : workers.complete = false) (pollIntervalMs forceTimeoutSecs : Nat) :
    Obeyed workers (.twoStage pollIntervalMs forceTimeoutSecs) ↔
      workers.mayRemove workers.names = true ∧ ∀ name ∈ workers.names, workers.fails name = false := by
  have ends : workers.handle (.twoStage pollIntervalMs forceTimeoutSecs) = workers.removing
      (workers.names.takeWhile fun name => !workers.fails name) (workers.removeStrictly workers.names workers.names) := by
    simp [handle, readable, late]
  by_cases succeed : ∀ name ∈ workers.names, workers.fails name = false
  · have whole : workers.names.takeWhile (fun name => !workers.fails name) = workers.names :=
      takeWhile_eq_self_iff.mpr fun name among => by rw [succeed name among]; rfl
    rw [whole, removeStrictly_all succeed] at ends
    exact (cleared_iff rfl (fun _ => Iff.rfl) ends).trans (and_iff_left succeed).symm
  · refine iff_of_false ?_ fun both => succeed both.2
    rintro ⟨-, left, ended, none⟩
    push Not at succeed
    obtain ⟨name, among, fails⟩ := succeed
    obtain ⟨other, stays⟩ := removeStrictly_leaves ⟨name, among, eq_true_of_ne_false fails⟩ fun name member _ => member
    obtain ⟨-, rfl⟩ := (removing_ack_iff _ _ _).mp (ends.symm.trans ended)
    exact (none other).mp stays

theorem graceful_obeyed_iff (name : String) (pollIntervalMs : Nat) :
    Obeyed workers (.graceful name pollIntervalMs) ↔
      (name ∈ workers.names → workers.rests name = true ∧ workers.fails name = false ∧ workers.writable = true) := by
  by_cases present : name ∈ workers.names
  · have ends : workers.handle (.graceful name pollIntervalMs) = if !workers.rests name then .waits
        else if workers.fails name then .ack workers.names else workers.removing [name] (delete workers.names name) := by
      simp [handle, readable, present]
    rw [imp_iff_right present]
    cases rests : workers.rests name with
    | false => simp [Obeyed, ends, rests]
    | true =>
      cases fails : workers.fails name with
      | true =>
        refine iff_of_false ?_ (by simp)
        simp only [Obeyed, ends, rests, fails]
        rintro ⟨-, _, ⟨⟩, left⟩
        exact ((left name).mp present).2 rfl
      | false =>
        have removes : workers.handle (.graceful name pollIntervalMs) = workers.removing [name] (delete workers.names name) := by
          simp [ends, rests, fails]
        rw [obeyed_iff rfl removes fun other => mem_delete]
        simp [mayRemove]
  · refine iff_of_true ⟨rfl, workers.names, by simp [handle, readable, present], fun other => ?_⟩ fun member => absurd member present
    exact ⟨fun member => ⟨member, fun same => present (same ▸ member)⟩, And.left⟩

end

theorem foldl_chunks (names : List String) (size : Nat) : (names.toChunks size).foldl deleteAll names = deleteAll names names := by
  have flat : deleteAll names (names.toChunks size).flatten = (names.toChunks size).foldl deleteAll names := foldl_flatten
  rw [← flat, ShutdownCompletion.flatten_toChunks]

/-- What an operator asks for is done exactly under the condition `Heeded`. -/
theorem command_obeyed_iff (workers : WorkerSet) (asked : OperatorStrategy) : Obeyed workers asked ↔ Heeded workers asked := by
  cases readable : workers.readable with
  | false => simp [Obeyed, Heeded, handle, readable]
  | true =>
    simp only [Heeded, readable, true_and]
    cases asked with
    | timeout totalTimeoutSecs => exact iff_of_false (fun obeyed => nomatch obeyed.1) id
    | force => exact cleared_iff rfl (fun _ => Iff.rfl) (by simp [handle, readable])
    | graceful name pollIntervalMs => exact graceful_obeyed_iff readable name pollIntervalMs
    | twoStage pollIntervalMs forceTimeoutSecs =>
      cases complete : workers.complete with
      | false => simpa using late_twoStage_obeyed_iff readable complete pollIntervalMs forceTimeoutSecs
      | true => simpa using cleared_iff rfl (fun _ => Iff.rfl) (by simp [handle, readable, complete])
    | stateBasedIdle =>
      refine obeyed_iff rfl (by simp [handle, readable]; rfl) fun name => (mem_foldl_delete workers.working _ _ name).trans ?_
      exact and_congr_right fun member => ⟨fun kept => kept member, fun kept _ => kept⟩
    | batched batchSize intervalMs =>
      by_cases none : batchSize = 0
      · refine iff_of_false ?_ fun both => both.1 none
        rintro ⟨-, _, ended, -⟩
        simp [handle, readable, none] at ended
      · refine (cleared_iff rfl (fun _ => Iff.rfl) ?_).trans (and_iff_right none).symm
        simp [handle, readable, none, foldl_chunks]

/-- Once the recv loop of a node has its guard, a writer that waits for the router waits for good. -/
theorem recv_excludes_writers {nodeType : NodeType} {events more : List (Event NodeLock)} {system final : System NodeLock}
    (node : NodeProgress.NodeRun nodeType events) (ran : run System.step {} events = some system) {recv task : Nat}
    (received : system.programs[recv]? = some []) (holds : (recv, .read) ∈ (system.locks .consumerRouter).holders)
    (waiting : (task, .write) ∈ (system.locks .consumerRouter).waiting) (later : NodeProgress.NodeRun nodeType more)
    (continued : run System.step system more = some final) : (task, .write) ∉ (final.locks .consumerRouter).holders := by
  have valid := NodeProgress.run_valid node NodeProgress.booted_valid ran
  exact NodeProgress.obstructed_never_granted valid ⟨waiting, recv, .read, ⟨[], received, by simp⟩, .inl holds⟩ later continued

section
open Shutdown ShutdownCompletion
variable {env : ShutdownEnv} {state : ShutdownState}

/-- Run by a task that is none of the workers, the removal loop of `ShutdownMethods`
leaves the workers that are left here. -/
theorem loop_leaves (stops : Nat → Bool) (strict : Bool) (listed : List Worker) {left}
    (ahead : Ahead env state (listed.map Worker.name)) (same : ∀ name, name ∈ state.router.workerIndex ↔ name ∈ left)
    (answers : ∀ index worker, listed[index]? = some worker →
      workers.fails worker.name = (env.acks (state.acks + index)).isSome) (name : String) :
    name ∈ (ShutdownCompletion.left (listed.forM (removeWorker env stops strict) state)).workerIndex ↔
      name ∈ if strict then workers.removeStrictly left (listed.map Worker.name) else deleteAll left (listed.map Worker.name) := by
  induction listed generalizing state left with
  | nil => cases strict <;> exact same name
  | cons worker rest ih =>
    have answer := answers 0 worker rfl
    by_cases refused : strict = true ∧ workers.fails worker.name = true
    · obtain ⟨rfl, fails⟩ := refused
      obtain ⟨error, failed⟩ := Option.isSome_iff_exists.mp (answer.symm.trans fails)
      have ended : (worker :: rest).forM (removeWorker env stops true) state = .error (.failed error) _ :=
        bind_error (removeWorker_fails env stops ahead.alive failed)
      simp only [ended, map_cons, removeStrictly, fails, if_true]
      exact same name
    · have passes := removeWorker_passes env stops ahead.alive (fun own => ahead.others (own ▸ mem_cons_self))
        (ahead.present _ mem_cons_self) (by simpa [answer] using refused)
      have removed (other : String) : other ∈ (without state.router worker.name).workerIndex ↔ other ∈ delete left worker.name := by
        rw [mem_delete, ← same, and_comm]
        exact AList.mem_erase
      have next := ih (ahead.next (state.awaits + 7) (state.acks + 1)) removed fun index later found => by
        rw [answers (index + 1) later found, Nat.add_right_comm, Nat.add_assoc]
      have continued : (worker :: rest).forM (removeWorker env stops strict) state = rest.forM (removeWorker env stops strict) _ :=
        bind_ok passes
      rw [continued, next]
      cases strict with
      | false => rfl
      | true => simp [removeStrictly, show workers.fails worker.name = false by simpa using refused]

end

private def staff (writable : Bool) : WorkerSet where
  names := ["a", "b"]
  fails _ := false
  working _ := false
  rests _ := true
  complete := false
  readable := true
  writable := writable

/-- The server has no case for `Timeout`, the handler panics on batches without a size,
and on a booted node it waits for the write guard. -/
theorem commands_not_obeyed :
    ¬ Obeyed (staff true) (.timeout 30) ∧ ¬ Obeyed (staff true) (.batched 0 100) ∧ ¬ Obeyed (staff false) .force := by
  refine ⟨?_, ?_, ?_⟩
  · rintro ⟨accepted, -⟩
    cases accepted
  · rintro ⟨-, _, ended, -⟩
    cases (show (staff true).handle (.batched 0 100) = .panicked by decide).symm.trans ended
  · rintro ⟨-, _, ended, -⟩
    cases (show (staff false).handle .force = .waits by decide).symm.trans ended

end EventBase.Proofs.OperatorShutdown
