import EventBase.Foundations.Run

/-! Runs put together from parts and told from their prefixes; and runs whose every step
lowers a measure: they are short, and if nothing but an end stops them they reach one. -/

namespace EventBase.Foundations

section
variable {σ ε : Type} {step : σ → ε → Option σ} {allowed : σ → ε → Prop}

theorem along_cons {state next : σ} {event events} (admitted : allowed state event)
    (stepped : step state event = some next) (rest : Along step allowed next events) :
    Along step allowed state (event :: events) := by
  refine ⟨admitted, fun other same => ?_⟩
  cases stepped.symm.trans same
  exact rest

/-- What every prefix of a run has to satisfy, traced to the steps: the steps that are
allowed keep an invariant under which it holds, and a step after which it holds was
allowed. -/
theorem prefixes_iff_along {good : List ε → σ → Prop} {state last : σ} {events} (invariant : σ → Prop)
    (initial : invariant state)
    (preserved : ∀ {state event next}, allowed state event → invariant state → step state event = some next → invariant next)
    (holds : ∀ {before reached}, invariant reached → good before reached)
    (forced : ∀ {before reached event next}, run step state before = some reached → step reached event = some next →
      good (before ++ [event]) next → allowed reached event) (ran : run step state events = some last) :
    (∀ before after reached, events = before ++ after → run step state before = some reached → good before reached) ↔
      Along step allowed state events := by
  constructor
  · intro prefixes
    apply along_of_prefixes
    intro before event rest reached split here
    rw [split, run_append, here, Option.bind_some] at ran
    obtain ⟨next, stepped, -⟩ := run_cons ran
    apply forced here stepped
    apply prefixes (before ++ [event]) rest next
    · rw [split, List.append_assoc, List.singleton_append]
    · rw [run_append, here, Option.bind_some, run, stepped, Option.bind_some, run]
  · intro along before after reached split here
    have earlier : Along step allowed state before := Along.of_append (split ▸ along)
    exact holds (run_invariant invariant preserved earlier initial here)

theorem along_append {state middle : σ} {first last} (admitted : Along step allowed state first)
    (ran : run step state first = some middle) (rest : Along step allowed middle last) :
    Along step allowed state (first ++ last) := by
  induction first generalizing state with
  | nil =>
    cases ran
    exact rest
  | cons event events ih =>
    obtain ⟨next, stepped, continued⟩ := run_cons ran
    exact along_cons admitted.1 stepped (ih (admitted.2 next stepped) continued)

end

variable {σ ε : Type} {step : σ → ε → Option σ} {allowed : σ → ε → Prop} {invariant : σ → Prop} {measure : σ → Nat}
  (descends : ∀ {state event next}, invariant state → allowed state event → step state event = some next →
    invariant next ∧ measure next < measure state)

include descends

theorem run_length_le {state last : σ} {events} (initial : invariant state) (admitted : Along step allowed state events)
    (ran : run step state events = some last) :
    events.length + measure last ≤ measure state := by
  induction events generalizing state with
  | nil =>
    cases ran
    simp
  | cons event rest ih =>
    obtain ⟨next, stepped, continued⟩ := run_cons ran
    obtain ⟨kept, lower⟩ := descends initial admitted.1 stepped
    have bounded := ih kept (admitted.2 next stepped) continued
    rw [List.length_cons]
    omega

theorem exists_run_to {ended : σ → Prop}
    (progresses : ∀ state, invariant state → ¬ ended state → ∃ event next, allowed state event ∧ step state event = some next)
    {state : σ} (initial : invariant state) :
    ∃ events last, Along step allowed state events ∧ run step state events = some last ∧ ended last := by
  induction height : measure state using Nat.strongRecOn generalizing state with
  | ind height ih =>
    subst height
    by_cases done : ended state
    · exact ⟨[], state, trivial, rfl, done⟩
    · obtain ⟨event, next, admitted, stepped⟩ := progresses state initial done
      obtain ⟨kept, lower⟩ := descends initial admitted stepped
      obtain ⟨events, last, along, ran, arrived⟩ := ih (measure next) lower kept rfl
      refine ⟨event :: events, last, along_cons admitted stepped along, ?_, arrived⟩
      rw [run, stepped, Option.bind_some, ran]

end EventBase.Foundations
