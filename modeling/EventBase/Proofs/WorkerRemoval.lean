import EventBase.Proofs.PlaneCoherence

/-! What becomes of the messages of a worker that is removed while the dispatcher still has it
in its cache. -/

namespace EventBase.Proofs.WorkerRemoval
open Foundations PlaneSteps PlaneCoherence DispatcherConservation List

structure Removed (plane : Plane) (cell : Cell) : Prop where
  aborted : cell.aborted = true
  unmapped : cell.worker.name ∉ plane.maps.inboxes
  forgotten : cell.worker.name ∉ plane.maps.names

/-- The message is again in the topic queue or in another worker's inbox. -/
inductive Returned (plane : Plane) (channel : Nat) (copy : Copy) : Prop
  | queue (held : Copy) (member : held ∈ plane.queue) (same : SameMessage copy.message held.message)
  | inbox (other : Nat) (cell : Cell) (held : Copy) (elsewhere : other ≠ channel)
      (found : plane.cells[other]? = some cell) (member : held ∈ cell.inbox) (same : SameMessage copy.message held.message)

def Accounted (plane : Plane) (channel : Nat) (cell : Cell) : Prop :=
  ∃ returned, cell.accepted.Perm (cell.completed ++ returned) ∧ ∀ copy ∈ returned, Returned plane channel copy

/-- The worker's task is aborted only while it has nothing to do, and the loop
acts on no message while its cache still leads to the aborted worker. -/
def Quiet (channel : Nat) (plane : Plane) : PlaneEvent → Prop
  | .unregister removed => removed = channel → ∀ cell ∈ plane.cells[channel]?, cell.inbox = [] ∧ cell.hand = none
  | .act _ _ => ∀ cell ∈ plane.cells[channel]?, cell.aborted = true →
      ∀ handle ∈ plane.dispatcher.cached, handle.channel ≠ channel
  | _ => True

instance (channel : Nat) (plane : Plane) : ∀ event, Decidable (Quiet channel plane event)
  | .unregister removed => inferInstanceAs (Decidable (removed = channel →
      ∀ cell ∈ plane.cells[channel]?, cell.inbox = [] ∧ cell.hand = none))
  | .act .. => inferInstanceAs (Decidable (∀ cell ∈ plane.cells[channel]?, cell.aborted = true →
      ∀ handle ∈ plane.dispatcher.cached, handle.channel ≠ channel))
  | .submit .. | .push .. | .claim | .reclaim .. | .loadGeneration | .readNames | .readInboxes | .nack .. | .resume
  | .recv .. | .fetch .. | .deliverDelayed .. | .receive .. | .finish .. | .finishEphemeral .. | .create ..
  | .register .. | .notify .. | .exit .. | .unmap .. | .forget .. | .stop .. | .close .. => instDecidableTrue

/-- What a worker has accepted is what it completed and what it still holds; an
aborted one holds nothing. -/
structure Kept (cell : Cell) : Prop where
  accepted : cell.accepted = cell.completed ++ cell.copies
  aborted : cell.aborted = true → cell.copies = []

section
variable {config : PlaneConfig} {plane next : Plane} {event : PlaneEvent} {channel : Nat}

private theorem kept_setCell {changed old updated} (kept : ∀ cell ∈ plane.cells[channel]?, Kept cell)
    (found : plane.cells[changed]? = some old) (keeps : changed = channel → Kept old → Kept updated) :
    ∀ cell ∈ (plane.cells.set changed updated)[channel]?, Kept cell := by
  intro cell present
  obtain ⟨rfl, rfl⟩ | ⟨-, listed⟩ := getElem?_set_cases present
  · exact keeps rfl (kept old found)
  · exact kept cell listed

theorem kept_step (coherent : Coherent config plane) (kept : ∀ cell ∈ plane.cells[channel]?, Kept cell)
    (quiet : Quiet channel plane event) (stepped : Step config plane event next) :
    ∀ cell ∈ next.cells[channel]?, Kept cell := by
  cases stepped with
  | @deliver _ _ _ target _ cell phase branch found =>
    refine kept_setCell kept found fun here old => ⟨?_, fun aborted => ?_⟩
    · simp only [Cell.copies, old.accepted, append_assoc]
    · exact absurd here (quiet cell (here ▸ found) aborted target (planned_deliver branch).1)
  | receive found running free inbox =>
    refine kept_setCell kept found fun _ old => ⟨?_, fun aborted => ?_⟩
    · simp [Cell.copies, old.accepted, free, inbox]
    · simpa [Cell.copies, free, inbox] using old.aborted aborted
  | giveUp found running hand misrouted
  | forward found running hand misrouted =>
    simp [(coherent.cellOwned found).not_misrouted hand] at misrouted
  | finish found running hand =>
    refine kept_setCell kept found fun _ old => ⟨?_, fun aborted => ?_⟩
    · simp [Cell.copies, old.accepted, hand]
    · simpa [Cell.copies, hand] using old.aborted aborted
  | create =>
    intro cell present
    obtain ⟨-, rfl⟩ | listed := getElem?_concat_cases present
    · exact ⟨rfl, fun _ => rfl⟩
    · exact kept cell listed
  | register found =>
    exact kept_setCell kept found fun _ old => ⟨old.accepted, old.aborted⟩
  | notify found | exit found =>
    exact kept_setCell kept found fun _ old => ⟨old.accepted, old.aborted⟩
  | @unregister _ cell found =>
    refine kept_setCell kept found fun here old => ⟨old.accepted, fun _ => ?_⟩
    obtain ⟨empty, free⟩ := quiet here cell (here ▸ found)
    simp [Cell.copies, empty, free]
  | @stop _ cell found aborted =>
    refine kept_setCell kept found fun _ old => ?_
    have empty := old.aborted aborted
    have free : cell.hand = none := by simpa [Cell.copies] using (append_eq_nil_iff.mp empty).1
    exact ⟨by simpa [Cell.copies, free] using old.accepted, fun _ => by simpa [Cell.copies, free] using empty⟩
  | @close _ cell found aborted =>
    refine kept_setCell kept found fun _ old => ?_
    have empty := old.aborted aborted
    have drained : cell.inbox = [] := (append_eq_nil_iff.mp empty).2
    exact ⟨by simpa [Cell.copies, drained] using old.accepted, fun _ => by simpa [Cell.copies, drained] using empty⟩
  | _ => exact kept

end

/-- A removed worker that was idle when its task was aborted, and that the loop
did not serve afterwards, leaves no accepted message behind. -/
theorem removed_worker_accounted (config : PlaneConfig) (channel : Nat) (events : List PlaneEvent) (plane : Plane)
    (cell : Cell) (quiet : Along (Plane.step config) (Quiet channel) {} events)
    (ran : run (Plane.step config) {} events = some plane) (found : plane.cells[channel]? = some cell)
    (removed : Removed plane cell) : Accounted plane channel cell := by
  have invariant := run_invariant
    (fun state => Coherent config state ∧ ∀ cell ∈ state.cells[channel]?, Kept cell)
    (fun quiet ⟨coherent, kept⟩ stepped =>
      ⟨coherent.step (step_sound stepped), kept_step coherent kept quiet (step_sound stepped)⟩)
    quiet ⟨.initial config, by simp⟩ ran
  have kept := invariant.2 cell found
  refine ⟨[], ?_, by simp⟩
  rw [kept.accepted, kept.aborted removed.aborted]

theorem not_accounted {plane cell} (empty : plane.queue = []) (alone : plane.cells.length = 1)
    (missing : cell.completed.length < cell.accepted.length) : ¬ Accounted plane 0 cell := by
  rintro ⟨returned, all, again⟩
  have count := all.length_eq
  rw [length_append] at count
  cases returned with
  | nil =>
    rw [length_nil] at count
    omega
  | cons copy rest =>
    cases again copy mem_cons_self with
    | queue held member => simp [empty] at member
    | inbox other cell held elsewhere found =>
      obtain ⟨inside, -⟩ := List.getElem?_eq_some_iff.mp found
      omega

section

def solo : PlaneConfig := { node := none, topic := "t" }

def host : Env := { nodeType := .host, registry := ∅ }

def order (id : String) : EMessage := EMessage.new id 0 "t" [] .standard none

def firstOrder : List PlaneEvent :=
  [.create "w" none, .register 0, .submit host (order "a"), .push 0, .claim, .loadGeneration, .readNames, .readInboxes,
    .act true true]

def secondOrder : List PlaneEvent := [.submit host (order "b"), .push 0, .claim, .loadGeneration, .act true true]

def handleFirst : List PlaneEvent :=
  [.receive 0, .finish 0 host { answer := .ack, message := { order "a" with toWorker := some "w" } }]

/-- `graceful_shutdown` finds the worker Idle: it notifies it and calls
`del_worker`. -/
def gracefulShutdown : List PlaneEvent := [.notify 0, .exit 0, .unregister 0, .unmap 0, .forget 0]

end

theorem drained_worker_accounted : ∃ plane cell,
    run (Plane.step solo) {} (firstOrder ++ handleFirst ++ gracefulShutdown) = some plane ∧
      plane.cells[0]? = some cell ∧ cell.accepted.length = 1 ∧ Accounted plane 0 cell :=
  ⟨_, _, rfl, rfl, rfl, removed_worker_accounted solo 0 (firstOrder ++ handleFirst ++ gracefulShutdown) _ _ (by decide)
    rfl rfl ⟨rfl, by decide, by decide⟩⟩

/-- The worker is Idle between two messages, so the second one is lost with its
inbox although its claim was acknowledged. -/
theorem idle_worker_loses_order : ∃ plane cell,
    run (Plane.step solo) {} (firstOrder ++ secondOrder ++ handleFirst ++ gracefulShutdown) = some plane ∧
      plane.cells[0]? = some cell ∧ Removed plane cell ∧ ¬ Accounted plane 0 cell := by
  exact ⟨_, _, rfl, rfl, ⟨rfl, by decide, by decide⟩, not_accounted rfl rfl (by decide)⟩

end EventBase.Proofs.WorkerRemoval
