import EventBase.GracefulShutdown

/-! A pipeline is interrupted when the worker gets hold of a message after its status was read as
`Idle`. -/

namespace EventBase.Proofs.GracefulInterruption
open Foundations GracefulShutdown

def Resting (state : State) : Prop :=
  state.phase = .waiting ∧ state.inbox = 0 ∨ state.phase = .leaving ∨ state.phase = .exited

instance (state : State) : Decidable (Resting state) :=
  inferInstanceAs (Decidable (state.phase = .waiting ∧ state.inbox = 0 ∨ state.phase = .leaving ∨ state.phase = .exited))

def Committed : CallerPhase → Bool
  | .notifying | .polling | .acknowledging | .deleting => true
  | .checking | .sleeping | .done => false

/-- The status is read as `Idle` only at rest, and no message arrives from there to the abort. -/
def Quiet (state : State) : Event → Prop
  | .check => state.phase.status = .idle → Resting state
  | .arrive => Committed state.caller = false
  | _ => True

/-- Nothing was interrupted, and a worker that is to be deleted is at rest. -/
structure Calm (state : State) : Prop where
  whole : state.interrupted = false
  resting : Committed state.caller = true → Resting state

/-- What a step can do. The phases between taking a message and the end of its handling are `work`,
the caller's steps other than its reading of the status are `call`. -/
inductive Move (method : Method) (state : State) : Event → State → Prop
  | arrive : Move method state .arrive { state with inbox := state.inbox + 1 }
  | receive (inbox : Nat) (waiting : state.phase = .waiting) (full : state.inbox = inbox + 1) :
    Move method state .receive { state with phase := .received, inbox }
  | notice (waiting : state.phase = .waiting) : Move method state .notice { state with phase := .leaving, notified := false }
  | work (event : Event) (before after : LoopPhase) (other : event ≠ .check) (found : state.phase = before)
    (busy : before ≠ .waiting ∧ before ≠ .leaving ∧ before ≠ .exited) (alive : after ≠ .aborted) :
    Move method state event { state with phase := after }
  | exit (leaving : state.phase = .leaving) : Move method state .exit { state with phase := .exited }
  | check (after : CallerPhase) (checking : state.caller = .checking)
    (committed : Committed after = true → state.phase.status = .idle) :
    Move method state .check { state with caller := after }
  | call (event : Event) (before after : CallerPhase) (notified : Bool) (other : event ≠ .check) (found : state.caller = before)
    (active : before ≠ .done) (kept : Committed after = true → Committed before = true)
    (past : Committed before = true → Committed after = true ∨ after = .done) :
    Move method state event { state with caller := after, notified }
  | delete (deleting : state.caller = .deleting) :
    Move method state .delete
      { state with phase := .aborted, caller := .done, interrupted := decide (state.phase = .running) }

section
variable {method : Method} {state next : State}

theorem step_moves {event} (stepped : step method state event = some next) : Move method state event next := by
  cases event with
  | arrive =>
    cases stepped
    exact .arrive
  | receive =>
    simp only [step] at stepped
    split at stepped
    · next inbox waiting full =>
      cases stepped
      exact .receive inbox waiting full
    · cases stepped
  | notice =>
    simp only [step] at stepped
    split at stepped
    · next waiting _ =>
      cases stepped
      exact .notice waiting
    · cases stepped
  | setWorking | runPipeline | skip | finish | setIdle =>
    obtain ⟨found, rfl⟩ := guarded_step stepped
    exact .work _ _ _ Event.noConfusion found (by decide) LoopPhase.noConfusion
  | exit =>
    obtain ⟨leaving, rfl⟩ := guarded_step stepped
    exact .exit leaving
  | check =>
    obtain ⟨checking, rfl⟩ := guarded_step stepped
    refine .check _ checking fun committed => ?_
    cases read : state.phase.status with
    | idle => rfl
    | working => cases method <;> simp [read, Committed] at committed
  | sleep | notify =>
    obtain ⟨found, rfl⟩ := guarded_step stepped
    exact .call _ _ _ _ Event.noConfusion found (by decide) (by decide) (by decide)
  | poll timeUp =>
    obtain ⟨found, rfl⟩ := guarded_step stepped
    exact .call _ _ _ state.notified Event.noConfusion found (by decide) (fun _ => rfl) fun _ => .inl (by split <;> rfl)
  | acknowledge sent =>
    obtain ⟨found, rfl⟩ := guarded_step stepped
    refine .call _ _ _ state.notified Event.noConfusion found (by decide) (fun _ => rfl) fun _ => ?_
    cases method <;> cases sent <;> decide
  | delete =>
    obtain ⟨deleting, rfl⟩ := guarded_step stepped
    exact .delete deleting

theorem Resting.busy {phase} (resting : Resting state) (found : state.phase = phase)
    (busy : phase ≠ .waiting ∧ phase ≠ .leaving ∧ phase ≠ .exited) : False := by
  obtain ⟨waiting, -⟩ | leaving | exited := resting
  · exact busy.1 (found.symm.trans waiting)
  · exact busy.2.1 (found.symm.trans leaving)
  · exact busy.2.2 (found.symm.trans exited)

theorem Calm.move {event} (calm : Calm state) (quiet : Quiet state event) (move : Move method state event next) :
    Calm next := by
  cases move with
  | arrive =>
    refine ⟨calm.whole, fun committed => ?_⟩
    have free : Committed state.caller = false := quiet
    exact absurd (free.symm.trans committed) Bool.noConfusion
  | receive inbox waiting full =>
    refine ⟨calm.whole, fun committed => ?_⟩
    obtain ⟨-, empty⟩ | leaving | exited := calm.resting committed
    · simp [full] at empty
    · simp [waiting] at leaving
    · simp [waiting] at exited
  | notice => exact ⟨calm.whole, fun _ => .inr (.inl rfl)⟩
  | work _ before after _ found busy => exact ⟨calm.whole, fun committed => ((calm.resting committed).busy found busy).elim⟩
  | exit => exact ⟨calm.whole, fun _ => .inr (.inr rfl)⟩
  | check after _ committed => exact ⟨calm.whole, fun read => quiet (committed read)⟩
  | call _ before after notified _ found _ kept => exact ⟨calm.whole, fun committed => calm.resting (found ▸ kept committed)⟩
  | delete deleting =>
    refine ⟨decide_eq_false fun running => ?_, Bool.noConfusion⟩
    exact (calm.resting (by rw [deleting]; rfl)).busy running (by decide)

def Unaborted (state : State) : Prop := state.caller ≠ .done → state.phase ≠ .aborted ∧ state.interrupted = false

theorem Unaborted.move {event} (unaborted : Unaborted state) (move : Move method state event next) : Unaborted next := by
  cases move with
  | arrive => exact unaborted
  | receive | notice | exit => exact fun busy => ⟨LoopPhase.noConfusion, (unaborted busy).2⟩
  | work _ before after _ found busy alive => exact fun busy => ⟨alive, (unaborted busy).2⟩
  | check after checking => exact fun _ => unaborted (by rw [checking]; exact CallerPhase.noConfusion)
  | call _ before after notified _ found active => exact fun _ => unaborted (found ▸ active)
  | delete => exact fun busy => absurd rfl busy

theorem restless_interrupted (checking : state.caller = .checking) (idle : state.phase.status = .idle)
    (alive : state.phase ≠ .aborted) (restless : ¬ Resting state) :
    ∃ later final, Event.arrive ∉ later ∧ run (step method) state (.check :: later) = some final ∧ final.interrupted = true := by
  obtain ⟨phase, inbox, notified, caller, interrupted⟩ := state
  cases checking
  cases phase with
  | waiting =>
    cases inbox with
    | zero => exact absurd (.inl ⟨rfl, rfl⟩) restless
    | succ inbox =>
      refine ⟨[.receive, .setWorking, .runPipeline, .notify, .poll true, .acknowledge true, .delete], ?_⟩
      cases method <;> exact ⟨_, by decide, rfl, rfl⟩
  | received =>
    refine ⟨[.setWorking, .runPipeline, .notify, .poll true, .acknowledge true, .delete], ?_⟩
    cases method <;> exact ⟨_, by decide, rfl, rfl⟩
  | leaving => exact absurd (.inr (.inl rfl)) restless
  | exited => exact absurd (.inr (.inr rfl)) restless
  | working | running | finished => cases idle
  | aborted => exact absurd rfl alive

structure Final (state : State) : Prop extends Calm state where
  past : Committed state.caller = true ∨ state.caller = .done

theorem Final.move {event} (last : Final state) (silent : event ≠ .arrive) (move : Move method state event next) :
    Final next := by
  have unread : state.caller ≠ .checking := by
    intro checking
    obtain committed | done := last.past
    · simp [checking, Committed] at committed
    · simp [checking] at done
  have quiet : Quiet state event := by
    cases event with
    | arrive => exact absurd rfl silent
    | check =>
      cases move with
      | work _ _ _ other | call _ _ _ _ other => exact absurd rfl other
      | check after checking => exact absurd checking unread
    | receive | notice | setWorking | runPipeline | skip | finish | setIdle | exit | sleep | notify | poll | acknowledge
    | delete => trivial
  refine ⟨last.toCalm.move quiet move, ?_⟩
  cases move with
  | arrive => exact absurd rfl silent
  | receive | notice | work | exit => exact last.past
  | check after checking => exact absurd checking unread
  | call _ before after notified _ found active kept past =>
    obtain committed | done := last.past
    · exact past (found ▸ committed)
    · exact absurd (found.symm.trans done) active
  | delete => exact .inr rfl

theorem Final.run {later final} (last : Final state) (silent : Event.arrive ∉ later)
    (ran : Foundations.run (GracefulShutdown.step method) state later = some final) : Final final := by
  refine run_invariant Final (fun quiet last stepped => last.move quiet (step_moves stepped)) ?_ last ran
  refine along_of_prefixes fun before event rest _ split _ arrives => silent ?_
  rw [split, arrives]
  exact List.mem_append_right _ List.mem_cons_self

end

/-- In every run that is quiet the pipeline is never interrupted. Where the status is read as
`Idle`, it is safe from then on, as long as no message arrives, exactly when the worker is at rest. -/
theorem graceful_interrupts_iff (method : Method) :
    (∀ events final, Along (step method) Quiet {} events → run (step method) {} events = some final →
      final.interrupted = false) ∧
    ∀ events state, run (step method) {} events = some state → state.caller = .checking → state.phase.status = .idle →
      ((∀ later final, Event.arrive ∉ later → run (step method) state (.check :: later) = some final →
        final.interrupted = false) ↔ Resting state) := by
  refine ⟨fun events final quiet ran => ?_, fun events state ran checking idle => ?_⟩
  · have calm : Calm {} := ⟨rfl, Bool.noConfusion⟩
    exact (run_invariant Calm (fun quiet calm stepped => calm.move quiet (step_moves stepped)) quiet calm ran).whole
  · have unaborted : Unaborted state :=
      run_preserves Unaborted (fun unaborted stepped => unaborted.move (step_moves stepped)) (fun _ => ⟨LoopPhase.noConfusion, rfl⟩) ran
    obtain ⟨alive, whole⟩ := unaborted (by rw [checking]; exact CallerPhase.noConfusion)
    constructor
    · intro safe
      by_contra restless
      obtain ⟨later, final, silent, continued, interrupted⟩ := @restless_interrupted method state checking idle alive restless
      exact absurd ((safe later final silent continued).symm.trans interrupted) Bool.noConfusion
    · intro resting later final silent continued
      obtain ⟨next, stepped, rest⟩ := run_cons continued
      simp only [step, checking, if_true, idle, Option.some.injEq] at stepped
      subst stepped
      have last : Final { state with caller := .notifying } := ⟨⟨whole, fun _ => resting⟩, .inl rfl⟩
      exact (last.run silent rest).whole

private def removal : List Event := [.check, .notify, .poll false, .acknowledge true, .delete]

/-- A worker that has nothing to do is removed. -/
theorem resting_worker_removed :
    (∃ final, run (step .gracefulShutdown) {} removal = some final ∧ final.phase = .aborted ∧ final.interrupted = false) ∧
      ∀ later final, Event.arrive ∉ later → run (step .gracefulShutdown) {} (.check :: later) = some final →
        final.interrupted = false := by
  obtain ⟨whole, safe⟩ := graceful_interrupts_iff .gracefulShutdown
  have quiet : Along (step .gracefulShutdown) Quiet {} removal := by simp [removal, Along, Quiet, Resting]
  exact ⟨⟨_, rfl, rfl, whole removal _ quiet rfl⟩, (safe [] {} rfl rfl rfl).mpr (by decide)⟩

/-- A message comes in between the reading of the status and the removal. -/
theorem late_message_interrupted :
    ∃ final, run (step .shutdownIdleOnly) {}
        [.check, .arrive, .receive, .setWorking, .runPipeline, .notify, .poll true, .acknowledge true, .delete] = some final ∧
      final.interrupted = true := ⟨_, rfl, rfl⟩

end EventBase.Proofs.GracefulInterruption
