import EventBase.Proofs.PlaneSteps

/-! A dispatcher that alone reads its queue puts back what it took. It is stuck for good where
the queue is full by then. -/

namespace EventBase.Proofs.DispatchDeadlock
open Foundations PlaneSteps

/-- The loop waits inside `nack` for room, and in no continuation does anything
leave the queue. -/
structure Deadlocked (config : PlaneConfig) (plane : Plane) : Prop where
  waits : ∃ copy, plane.phase = .waiting copy
  full : config.hasRoom plane.queue = false
  forever : ∀ events final, run (Plane.step config) plane events = some final →
    final.phase = plane.phase ∧ final.queue = plane.queue

def Reached (config : PlaneConfig) (events : List PlaneEvent) (property : Plane → Prop) : Prop :=
  ∃ before after plane, events = before ++ after ∧ run (Plane.step config) {} before = some plane ∧ property plane

def RoomForNack (config : PlaneConfig) (plane : Plane) (event : PlaneEvent) : Prop :=
  event = .nack .requeued → config.hasRoom plane.queue = true

section
variable {config : PlaneConfig} {plane next : Plane} {event : PlaneEvent}

theorem waiting_stays {copy} (sole : config.sharedQueue = false) (waits : plane.phase = .waiting copy)
    (full : config.hasRoom plane.queue = false) (stepped : plane.step config event = some next) :
    next.phase = plane.phase ∧ next.queue = plane.queue := by
  cases step_sound stepped with
  | push found room => simp [full] at room
  | resume phase room => simp [full] at room
  | recvResolved _ shared | recvExpired _ shared | recvRelayed _ shared
  | recvIdle _ shared | recvEphemeral _ shared => simp [sole] at shared
  | submit | fetch | deliverDelayed | receive | giveUp | forward | finish | finishEphemeral | create | register | notify
  | exit | unregister | unmap | forget | stop | close => exact ⟨rfl, rfl⟩
  | _ => simp_all

theorem deadlocked_of_waiting {copy} (sole : config.sharedQueue = false) (waits : plane.phase = .waiting copy)
    (full : config.hasRoom plane.queue = false) : Deadlocked config plane := by
  refine ⟨⟨copy, waits⟩, full, fun events final ran => ?_⟩
  refine run_preserves (fun state => state.phase = plane.phase ∧ state.queue = plane.queue) ?_ ⟨rfl, rfl⟩ ran
  intro state event next same stepped
  obtain ⟨phase, queue⟩ := waiting_stays sole (same.1.trans waits) (same.2 ▸ full) stepped
  exact ⟨phase.trans same.1, queue.trans same.2⟩

theorem waits_from_full_nack (free : ∀ copy, plane.phase ≠ .waiting copy)
    (roomy : RoomForNack config plane event)
    (stepped : plane.step config event = some next) (copy : Copy) : next.phase ≠ .waiting copy := by
  cases step_sound stepped with
  | block phase full => simp [roomy rfl] at full
  | submit | push | recvResolved | recvExpired | recvRelayed | recvIdle | recvEphemeral | fetch | deliverDelayed
  | receive | giveUp | forward | finish | finishEphemeral | create | register | notify | exit
  | unregister | unmap | forget | stop | close => exact free copy
  | _ => simp [Plane.setCell]

end

/-- A run of a topic whose dispatcher is the only reader of its queue reaches no
deadlock exactly when each of its negative acknowledgements finds room. -/
theorem no_deadlock_iff_room_for_nacks (config : PlaneConfig) (events : List PlaneEvent) (final : Plane)
    (sole : config.sharedQueue = false) (ran : run (Plane.step config) {} events = some final) :
    ¬ Reached config events (Deadlocked config) ↔ Along (Plane.step config) (RoomForNack config) {} events := by
  constructor
  · intro never
    refine along_of_prefixes fun before event after plane split reached same => ?_
    subst same
    by_contra full
    rw [split, run_append, reached, Option.bind_some] at ran
    obtain ⟨next, stepped, -⟩ := run_cons ran
    refine never ⟨before ++ [.nack .requeued], after, next, by simp [split], ?_, ?_⟩
    · rw [run_append, reached, Option.bind_some]
      simp only [run, stepped, Option.bind_some]
    · cases step_sound stepped with
      | requeue phase room => exact absurd room full
      | block phase full => exact deadlocked_of_waiting sole rfl full
  · rintro roomy ⟨before, after, plane, rfl, reached, dead⟩
    obtain ⟨copy, waits⟩ := dead.waits
    exact run_invariant (fun state => ∀ copy, state.phase ≠ .waiting copy)
      (fun roomy free stepped => waits_from_full_nack free roomy stepped) roomy.of_append (by simp) reached copy waits

section

def oneSlot : PlaneConfig := { node := none, topic := "t", capacity := some 1 }

def sender : Env := { nodeType := .host, registry := ∅ }

/-- The loop claims the first message and a second one takes its slot before the
loop, which has no worker to give it to, puts it back. -/
def overtaken : List PlaneEvent :=
  [.submit sender (EMessage.new "a" 0 "t" [] .standard none), .push 0, .claim, .loadGeneration, .readNames,
    .readInboxes, .act true true, .submit sender (EMessage.new "b" 0 "t" [] .standard none), .push 0, .nack .requeued]

end

theorem lone_message_requeued :
    ¬ Reached oneSlot (overtaken.take 7 ++ [.nack .requeued]) (Deadlocked oneSlot) := by
  refine (no_deadlock_iff_room_for_nacks oneSlot (overtaken.take 7 ++ [.nack .requeued]) _ rfl rfl).mpr ?_
  iterate 7
    refine ⟨nofun, ?_⟩
    rintro _ ⟨⟩
  exact ⟨fun _ => by decide, fun _ _ => trivial⟩

theorem overtaken_deadlocks :
    run (Plane.step oneSlot) {} overtaken ≠ none ∧ Reached oneSlot overtaken (Deadlocked oneSlot) :=
  ⟨by decide, overtaken, [], _, (List.append_nil _).symm, rfl, deadlocked_of_waiting rfl rfl (by decide)⟩

end EventBase.Proofs.DispatchDeadlock
