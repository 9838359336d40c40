import EventBase.GracefulShutdown

/-! The signal of a two-stage shutdown reaches no worker: the first stage succeeds only
where each loop has ended or was notified by someone else. -/

namespace EventBase.Proofs.FirstStage
open Foundations GracefulShutdown List Option

variable {worker next : State} {event : Event} {stage final : FirstStage}

/-- The loop has ended, or it has a notification that it has yet to notice. -/
def Leaves (worker : State) : Prop :=
  worker.phase = .leaving ∨ worker.phase = .exited ∨ worker.notified = true ∧ worker.phase ≠ .aborted

theorem leaves_step (own : event.isOwn = true) (stepped : step .gracefulShutdown worker event = some next) :
    Leaves next ↔ Leaves worker := by
  revert stepped
  fun_cases step .gracefulShutdown worker event
  all_goals intro stepped
  all_goals cases stepped
  all_goals simp_all [Leaves, Event.isOwn]

theorem exists_exit (leaves : Leaves worker) :
    ∃ events final, (∀ event ∈ events, event.isOwn = true) ∧
      run (step .gracefulShutdown) worker events = some final ∧ final.phase = .exited := by
  obtain ⟨phase, inbox, notified, caller, interrupted⟩ := worker
  rcases leaves with rfl | rfl | ⟨rfl, alive⟩
  · exact ⟨[.exit], _, by decide, rfl, rfl⟩
  · exact ⟨[], _, by simp, rfl, rfl⟩
  · cases phase with
    | waiting => exact ⟨[.notice, .exit], _, by decide, rfl, rfl⟩
    | received => exact ⟨[.setWorking, .skip, .setIdle, .notice, .exit], _, by decide, rfl, rfl⟩
    | working => exact ⟨[.skip, .setIdle, .notice, .exit], _, by decide, rfl, rfl⟩
    | running => exact ⟨[.finish, .setIdle, .notice, .exit], _, by decide, rfl, rfl⟩
    | finished => exact ⟨[.setIdle, .notice, .exit], _, by decide, rfl, rfl⟩
    | leaving => exact ⟨[.exit], _, by decide, rfl, rfl⟩
    | exited => exact ⟨[], _, by simp, rfl, rfl⟩
    | aborted => exact absurd rfl alive

def Own : StageEvent → Prop
  | .signal => False
  | .worker _ event => event.isOwn = true

theorem leaves_of_allDone (done : final.allDone = true) : ∀ worker ∈ final.workers, Leaves worker :=
  fun worker member => .inr (.inl (of_decide_eq_true (all_eq_true.mp done worker member)))

theorem leaves_run {events} (own : ∀ event ∈ events, Own event)
    (ran : run FirstStage.step stage events = some final) (done : ∀ worker ∈ final.workers, Leaves worker) :
    ∀ worker ∈ stage.workers, Leaves worker := by
  induction events generalizing stage with
  | nil => cases ran; exact done
  | cons event rest ih =>
    obtain ⟨middle, stepped, continued⟩ := run_cons ran
    have later := ih (fun event member => own event (mem_cons_of_mem _ member)) continued
    cases event with
    | signal => exact (own _ mem_cons_self).elim
    | worker index event =>
      obtain ⟨moving, found, stepped⟩ := bind_eq_some_iff.mp stepped
      obtain ⟨moved, advanced, rfl⟩ := map_eq_some_iff.mp stepped
      intro worker member
      obtain ⟨place, present⟩ := getElem?_of_mem member
      by_cases same : place = index
      · subst same
        cases found.symm.trans present
        have inside := (List.getElem?_eq_some_iff.mp found).1
        exact (leaves_step (own _ mem_cons_self) advanced).mp (later moved (mem_set inside _))
      · refine later worker (mem_of_getElem? (i := place) ?_)
        exact (getElem?_set_ne (Ne.symm same)).trans present

theorem run_worker {index events} (found : stage.workers[index]? = some worker)
    (ran : run (step .gracefulShutdown) worker events = some next) :
    run FirstStage.step stage (events.map (StageEvent.worker index)) =
      some { stage with workers := stage.workers.set index next } := by
  induction events generalizing stage worker with
  | nil =>
    cases ran
    obtain ⟨inside, rfl⟩ := List.getElem?_eq_some_iff.mp found
    rw [List.map_nil, run, List.set_getElem_self]
  | cons event rest ih =>
    obtain ⟨middle, stepped, continued⟩ := run_cons ran
    have inside := (List.getElem?_eq_some_iff.mp found).1
    have first : stage.step (.worker index event) = some { stage with workers := stage.workers.set index middle } := by
      simp [FirstStage.step, found, stepped]
    rw [List.map_cons, run, first, Option.bind_some, ih (List.getElem?_set_self inside) continued, List.set_set]

theorem exists_exits (leave : ∀ worker ∈ stage.workers, Leaves worker) (count : Nat) :
    ∃ events final, (∀ event ∈ events, Own event) ∧ run FirstStage.step stage events = some final ∧
      final.workers.length = stage.workers.length ∧
      ∀ place worker, final.workers[place]? = some worker →
        worker.phase = .exited ∨ count ≤ place ∧ stage.workers[place]? = some worker := by
  induction count with
  | zero => exact ⟨[], stage, by simp, rfl, rfl, fun place worker found => .inr ⟨place.zero_le, found⟩⟩
  | succ count ih =>
    obtain ⟨events, middle, own, ran, same, gone⟩ := ih
    cases found : middle.workers[count]? with
    | none =>
      refine ⟨events, middle, own, ran, same, fun place worker present => (gone place worker present).imp_right ?_⟩
      rintro ⟨bound, before⟩
      refine ⟨Nat.lt_of_le_of_ne bound ?_, before⟩
      rintro rfl
      cases found.symm.trans present
    | some leaving =>
      have ready : Leaves leaving :=
        (gone count leaving found).elim (fun ended => .inr (.inl ended)) fun before => leave _ (mem_of_getElem? before.2)
      obtain ⟨steps, out, owned, left, ended⟩ := exists_exit ready
      refine ⟨events ++ steps.map (StageEvent.worker count), { middle with workers := middle.workers.set count out },
        ?_, ?_, (length_set ..).trans same, ?_⟩
      · intro event member
        obtain before | member := mem_append.mp member
        · exact own event before
        · obtain ⟨step, taken, rfl⟩ := mem_map.mp member
          exact owned step taken
      · rw [run_append, ran, bind_some, run_worker found left]
      · intro place worker present
        obtain ⟨rfl, rfl⟩ | ⟨different, before⟩ := getElem?_set_cases present
        · exact .inl ended
        · refine (gone place worker before).imp_right fun ⟨bound, earlier⟩ => ⟨?_, earlier⟩
          exact Nat.lt_of_le_of_ne bound (Ne.symm different)

end EventBase.Proofs.FirstStage
