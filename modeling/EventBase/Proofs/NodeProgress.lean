import EventBase.Foundations.LockProgress
import EventBase.NodeLocks

/-! Writers of the two router locks. One is served unless a task that keeps the lock for good
is before it. -/

namespace EventBase.Proofs.NodeProgress
open Foundations Foundations.FairLock List

theorem guarded_flat (lock : NodeLock) (mode : Mode) {rest} (flat : Flat rest) :
    Flat (guarded lock mode ++ rest) := .guarded lock mode flat

private theorem replicate_flat (count : Nat) (lock : NodeLock) (mode : Mode) {rest} (flat : Flat rest) :
    Flat ((List.replicate count (guarded lock mode)).flatten ++ rest) := by
  induction count with
  | zero => exact flat
  | succ count ih =>
    rw [replicate_succ, flatten_cons, append_assoc]
    exact guarded_flat lock mode ih

private theorem removals_flat (removals : List Bool) : Flat (removals.map removal).flatten := by
  induction removals with
  | nil => exact .nil
  | cons acknowledged rest ih =>
    rw [map_cons, flatten_cons, removal, append_assoc]
    cases acknowledged with
    | true => exact guarded_flat _ _ (guarded_flat _ _ ih)
    | false => exact guarded_flat _ _ ih

theorem program_flat (task : NodeTask) : Flat task.program := by
  have closed (count : Nat) (lock : NodeLock) (mode : Mode) :
      Flat (List.replicate count (guarded lock mode)).flatten := by
    simpa using replicate_flat count lock mode .nil
  cases task with
  | recvLoop => exact .hold _ _
  | delayScheduler => exact .hold _ _
  | startUp => exact guarded_flat _ _ .nil
  | heartbeatOnce sends => exact guarded_flat _ _ (closed _ _ _)
  | nodeCollector => exact guarded_flat _ _ (guarded_flat _ _ .nil)
  | topicDiscovery missing =>
    exact guarded_flat _ _ (replicate_flat _ _ _ (guarded_flat _ _ (guarded_flat _ _ .nil)))
  | topicSync missing => exact guarded_flat _ _ (closed _ _ _)
  | routerSend => exact guarded_flat _ _ .nil
  | setStatus => exact guarded_flat _ _ .nil
  | shutdown polls removals => exact replicate_flat _ _ _ (removals_flat removals)

theorem NodeStep.flat {nodeType event} (admitted : NodeStep nodeType event) (program : Program NodeLock)
    (same : event = .spawn program) : Flat program := by
  subst same
  obtain ⟨task, -, rfl⟩ := admitted
  exact program_flat task

def NodeRun (nodeType : NodeType) (events : List (Event NodeLock)) : Prop := ∀ event ∈ events, NodeStep nodeType event

theorem NodeRun.along {nodeType events} (node : NodeRun nodeType events) (system : System NodeLock) :
    Along System.step (fun _ event => NodeStep nodeType event) system events := by
  induction events generalizing system with
  | nil => trivial
  | cons event rest ih =>
    refine ⟨node event mem_cons_self, fun next _ => ih (fun other member => ?_) next⟩
    exact node other (mem_cons_of_mem _ member)

theorem booted_valid : Valid ({} : System NodeLock) where
  waits := by simp
  holds := by simp
  flat := by simp
  queue := by simp

theorem run_valid {nodeType system final events} (node : NodeRun nodeType events) (valid : Valid system)
    (ran : run System.step system events = some final) :
    Valid final :=
  run_invariant Valid (fun admitted valid stepped => valid.step (NodeStep.flat admitted) stepped) (node.along system) valid ran

theorem obstructed_never_granted {nodeType system final lock task} (valid : Valid system)
    (obstructed : Obstructed system lock (task, .write)) {events} (node : NodeRun nodeType events)
    (ran : run System.step system events = some final) :
    (task, .write) ∉ (final.locks lock).holders := by
  have stays : Obstructed final lock (task, .write) :=
    run_invariant (fun state => Obstructed state lock (task, .write))
      (fun _ obstructed stepped => obstructed.step rfl stepped) (node.along system) obstructed ran
  obtain ⟨rest, pending⟩ := (run_valid node valid ran).waits lock task .write stays.waiting
  exact (run_valid node valid ran).bare pending

/-- In every state a node can reach, a waiting writer is served in some
continuation exactly when nobody who keeps the lock for good holds it or waits
in front. -/
theorem writer_granted_iff (nodeType : NodeType) (events : List (Event NodeLock)) (system : System NodeLock)
    (node : NodeRun nodeType events) (ran : run System.step {} events = some system)
    (lock : NodeLock) (task : Nat) (waiting : (task, .write) ∈ (system.locks lock).waiting) :
    (∃ more final, NodeRun nodeType more ∧ run System.step system more = some final ∧
        (task, .write) ∈ (final.locks lock).holders) ↔
      ¬ Obstructed system lock (task, .write) := by
  have valid := run_valid node booted_valid ran
  constructor
  · rintro ⟨more, final, later, continued, granted⟩ obstructed
    exact obstructed_never_granted valid obstructed later continued granted
  · intro free
    obtain ⟨final, ⟨tasks, continued⟩, granted⟩ := served system valid waiting free
    refine ⟨tasks.map .advance, final, ?_, continued, granted⟩
    intro event member
    obtain ⟨task, -, rfl⟩ := mem_map.mp member
    trivial

section

/-- The recv loop has its guard, and a shutdown of one worker asks for the write
guard. -/
def forcedShutdown : List (Event NodeLock) :=
  [.spawn (NodeTask.program .recvLoop), .advance 0, .spawn (NodeTask.program (.shutdown 0 [true]))] ++
    List.replicate 5 (.advance 1)

def pendingSync : List (Event NodeLock) :=
  [.spawn (NodeTask.program .routerSend), .spawn (NodeTask.program (.topicSync 1)), .advance 1, .advance 1,
    .advance 0, .advance 1]

private theorem node_run (nodeType : NodeType) (tasks : List NodeTask)
    (own : ∀ task ∈ tasks, task.runsOn nodeType = true) (events : List (Event NodeLock))
    (spawned : ∀ program, .spawn program ∈ events → program ∈ tasks.map NodeTask.program) :
    NodeRun nodeType events := by
  intro event member
  cases event with
  | advance task => trivial
  | spawn program =>
    obtain ⟨task, known, rfl⟩ := mem_map.mp (spawned program member)
    exact ⟨task, own task known, rfl⟩

private theorem pendingSync_run : NodeRun .worker pendingSync :=
  node_run .worker [.routerSend, .topicSync 1] (by decide) pendingSync (by simp [pendingSync])

private theorem forcedShutdown_run : NodeRun .host forcedShutdown :=
  node_run .host [.recvLoop, .shutdown 0 [true]] (by decide) forcedShutdown (by simp [forcedShutdown])

end

theorem pending_sync_granted :
    ∃ system, run System.step {} pendingSync = some system ∧ (1, .write) ∈ (system.locks .topicRouter).waiting ∧
      ∃ more final, NodeRun .worker more ∧ run System.step system more = some final ∧
        (1, .write) ∈ (final.locks .topicRouter).holders := by
  refine ⟨_, rfl, by decide, (writer_granted_iff .worker pendingSync _ pendingSync_run rfl .topicRouter 1 (by decide)).mpr ?_⟩
  rintro ⟨-, task, mode, ⟨program, found, never⟩, place⟩
  have sender : (task, mode) = (0, .read) := place.elim mem_singleton.mp (fun front => nomatch front)
  cases sender
  obtain rfl : program = [.release .topicRouter] := (Option.some.inj found).symm
  exact never (by decide)

/-- The recv loop never drops its read guard, so the worker is never removed. -/
theorem forced_shutdown_stuck :
    NodeRun .host forcedShutdown ∧ ∃ system, run System.step {} forcedShutdown = some system ∧
      (1, .write) ∈ (system.locks .consumerRouter).waiting ∧
      ¬ ∃ more final, NodeRun .host more ∧ run System.step system more = some final ∧
        (1, .write) ∈ (final.locks .consumerRouter).holders := by
  refine ⟨forcedShutdown_run, _, rfl, by decide, ?_⟩
  rintro ⟨more, final, later, continued, granted⟩
  refine obstructed_never_granted (run_valid forcedShutdown_run booted_valid rfl) ?_ later continued granted
  exact ⟨by decide, 0, .read, ⟨[], rfl, by simp⟩, .inl (by decide)⟩

end EventBase.Proofs.NodeProgress
