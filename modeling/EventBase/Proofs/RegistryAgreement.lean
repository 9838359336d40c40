import EventBase.WorkerRegistry

/-! The worker registry against its saved copy. Updates that wait for their save may be
missing from it, and once none waits the two agree. -/

namespace EventBase.Proofs.RegistryAgreement
open Foundations WorkerRegistry

/-- The order in which the calls changed the map explains it: each call occurs in it
once, and never before a call that had returned when it began. -/
theorem registry_agrees_once_quiet {wal : RegistryWal} {events : List WorkerRegistry.Event}
    {system : WorkerRegistry.System} (ran : run WorkerRegistry.step (WorkerRegistry.init wal) events = some system)
    (succeeds : ∀ event ∈ events, event.succeeds) (quiet : ∀ phase ∈ system.phases, phase.isReturned = true) :
    system.store.loadWorkerRegistry = system.value ∧
      system.value = WorkerRegistry.applyAll wal.loadWorkerRegistry system.applied ∧
      (system.applied.map SnapshotSave.Applied.index).Perm (List.range system.calls.length) ∧
      (∀ change ∈ system.applied, system.calls[change.index]? = some change.call) ∧
      system.applied.Pairwise fun first second => ¬ system.Precedes second.index first.index := by
  obtain ⟨saved, linear⟩ := SnapshotSave.saved_in_order ran succeeds quiet
  exact ⟨saved, linear.value, linear.applied_perm quiet, linear.called, linear.realTime⟩

/-- Two workers register; the second changes the map while the first waits to save it. -/
def twoRegister : List WorkerRegistry.Event :=
  [.begin (.register ⟨"a", "orders", 1⟩), .begin (.register ⟨"b", "orders", 2⟩), .advance 0 0 none, .advance 0 0 none,
    .advance 1 0 none, .advance 1 0 none, .advance 0 0 none, .advance 0 0 none, .advance 0 0 none, .begin (.heartbeat "a"),
    .advance 1 0 none, .advance 1 0 none, .advance 1 0 none, .advance 2 0 none, .advance 2 5 none, .advance 2 0 none,
    .advance 2 0 none, .advance 2 0 none]

theorem heartbeat_saved_for_two : ∃ system, run WorkerRegistry.step (WorkerRegistry.init (.redis .empty)) twoRegister = some system ∧
    system.store.loadWorkerRegistry = system.value ∧ system.value.entries = [⟨"a", "a", "orders", 5⟩, ⟨"b", "b", "orders", 2⟩] := by
  have finished : (run step (init (.redis .empty)) twoRegister).any (fun system =>
      system.phases.all (·.isReturned) && decide (system.value.entries = [⟨"a", "a", "orders", 5⟩, ⟨"b", "b", "orders", 2⟩])) =
      true := by decide +kernel
  obtain ⟨system, ran, checked⟩ := (Option.any_eq_true _ _).mp finished
  simp only [Bool.and_eq_true, decide_eq_true_eq, List.all_eq_true] at checked
  have succeeds : ∀ event ∈ twoRegister, event.succeeds := by simp [twoRegister, SnapshotSave.Event.succeeds]
  exact ⟨system, ran, (registry_agrees_once_quiet ran succeeds checked.1).1, checked.2⟩

end EventBase.Proofs.RegistryAgreement
