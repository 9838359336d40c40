import Mathlib.Data.List.Basic

/-! Runs of a transition function over a list of events, the induction rules for
them, what a register holds after a sequence of writes, and the two ways on from a
task that may fail. -/

namespace EventBase.Foundations
open List Option

section
variable {σ ε : Type} (step : σ → ε → Option σ)

/-- The state after the events, if each of them was enabled in turn. -/
def run (state : σ) : List ε → Option σ
  | [] => some state
  | event :: rest => (step state event).bind fun next => run next rest

/-- Every step the events take from `state` starts in a state and with an event
that `allowed` admits. -/
def Along (allowed : σ → ε → Prop) (state : σ) : List ε → Prop
  | [] => True
  | event :: rest => allowed state event ∧ ∀ next, step state event = some next → Along allowed next rest

variable {step}

instance Along.decidable {allowed : σ → ε → Prop} [∀ state event, Decidable (allowed state event)] :
    ∀ (state : σ) (events : List ε), Decidable (Along step allowed state events)
  | _, [] => isTrue trivial
  | state, event :: rest =>
    match stepped : step state event with
    | none => decidable_of_iff (allowed state event) (by simp [Along, stepped])
    | some next =>
      have : Decidable (Along step allowed next rest) := Along.decidable next rest
      decidable_of_iff (allowed state event ∧ Along step allowed next rest) (by simp [Along, stepped])

theorem run_cons {state final : σ} {event : ε} {rest : List ε} (ran : run step state (event :: rest) = some final) :
    ∃ next, step state event = some next ∧ run step next rest = some final := bind_eq_some_iff.mp ran

theorem run_append {state : σ} {first last : List ε} :
    run step state (first ++ last) = (run step state first).bind fun middle => run step middle last := by
  induction first generalizing state with
  | nil => rfl
  | cons event rest ih =>
    simp only [cons_append, run, bind_assoc]
    congr 1
    funext next
    exact ih

theorem run_invariant (invariant : σ → Prop) {allowed : σ → ε → Prop}
    (preserved : ∀ {state event next}, allowed state event → invariant state → step state event = some next →
      invariant next)
    {state final : σ} {events : List ε} (admitted : Along step allowed state events) (initial : invariant state)
    (ran : run step state events = some final) : invariant final := by
  induction events generalizing state with
  | nil => cases ran; exact initial
  | cons event rest ih =>
    obtain ⟨next, stepped, continued⟩ := run_cons ran
    exact ih (admitted.2 next stepped) (preserved admitted.1 initial stepped) continued

theorem run_preserves (invariant : σ → Prop)
    (preserved : ∀ {state event next}, invariant state → step state event = some next → invariant next)
    {state final : σ} {events : List ε} (initial : invariant state) (ran : run step state events = some final) :
    invariant final := by
  induction events generalizing state with
  | nil => cases ran; exact initial
  | cons event rest ih =>
    obtain ⟨next, stepped, continued⟩ := run_cons ran
    exact ih (preserved initial stepped) continued

theorem Along.of_append {allowed : σ → ε → Prop} {state : σ} {first last : List ε}
    (along : Along step allowed state (first ++ last)) : Along step allowed state first := by
  induction first generalizing state with
  | nil => trivial
  | cons event rest ih => exact ⟨along.1, fun next stepped => ih (along.2 next stepped)⟩

theorem Along.after_append {allowed : σ → ε → Prop} {state middle : σ} {first last : List ε}
    (along : Along step allowed state (first ++ last)) (ran : run step state first = some middle) :
    Along step allowed middle last := by
  induction first generalizing state with
  | nil => cases ran; exact along
  | cons event rest ih =>
    obtain ⟨next, stepped, continued⟩ := run_cons ran
    exact ih (along.2 next stepped) continued

theorem Along.imp {allowed stronger : σ → ε → Prop} {state : σ} {events : List ε} (along : Along step allowed state events)
    (implies : ∀ event ∈ events, ∀ state, allowed state event → stronger state event) :
    Along step stronger state events := by
  induction events generalizing state with
  | nil => trivial
  | cons event rest ih =>
    refine ⟨implies event mem_cons_self state along.1, fun next stepped => ?_⟩
    exact ih (along.2 next stepped) fun later member => implies later (mem_cons_of_mem _ member)

theorem along_of_prefixes {allowed : σ → ε → Prop} {state : σ} {events : List ε}
    (admits : ∀ before event rest reached, events = before ++ event :: rest → run step state before = some reached →
      allowed reached event) : Along step allowed state events := by
  induction events generalizing state with
  | nil => trivial
  | cons event rest ih =>
    refine ⟨admits [] event rest state rfl rfl, fun next stepped => ih ?_⟩
    intro before later more reached split ran
    refine admits (event :: before) later more reached (by rw [split, cons_append]) ?_
    simpa only [run, stepped, bind_some] using ran

end

section
variable {σ ω β : Type} (step : σ → ω → σ) (read : σ → Option β) (write : ω → Option β)

theorem foldl_reads_last (invariant : σ → Prop)
    (preserved : ∀ state operation, invariant state → invariant (step state operation))
    (reads : ∀ state operation, invariant state → read (step state operation) = (write operation).or (read state))
    (operations : List ω) {state : σ} (initial : invariant state) :
    read (operations.foldl step state) = (operations.filterMap write).getLast?.or (read state) := by
  induction operations generalizing state with
  | nil => rfl
  | cons operation rest ih =>
    rw [foldl_cons, ih (preserved _ _ initial), reads _ _ initial, filterMap_cons]
    cases write operation with
    | none => rfl
    | some value =>
      rw [getLast?_cons]
      cases (rest.filterMap write).getLast? <;> rfl

end

section
variable {σ τ ε ρ : Type}

/-- The replies a deterministic machine gives to the requests in turn. -/
def replies (call : σ → ε → ρ × σ) (state : σ) : List ε → List ρ
  | [] => []
  | request :: rest => (call state request).1 :: replies call (call state request).2 rest

theorem replies_related {left : σ → ε → ρ × σ} {right : τ → ε → ρ × τ} (relation : σ → τ → Prop) (same : ρ → ρ → Prop)
    {admits : ε → Prop}
    (simulates : ∀ {first second request}, relation first second → admits request →
      same (left first request).1 (right second request).1 ∧ relation (left first request).2 (right second request).2)
    {first : σ} {second : τ} (initial : relation first second) {requests : List ε}
    (admitted : ∀ request ∈ requests, admits request) :
    List.Forall₂ same (replies left first requests) (replies right second requests) := by
  induction requests generalizing first second with
  | nil => exact .nil
  | cons request rest ih =>
    obtain ⟨answered, kept⟩ := simulates initial (admitted request mem_cons_self)
    exact .cons answered (ih kept fun later member => admitted later (mem_cons_of_mem _ member))

end

theorem guarded_step {σ : Type} {guard : Prop} [Decidable guard] {next final : σ}
    (stepped : (if guard then some next else none) = some final) : guard ∧ next = final := by
  obtain ⟨holds, same⟩ := ite_none_right_eq_some.mp stepped
  exact ⟨holds, Option.some.inj same⟩

section
variable {τ : Type}

theorem getElem?_set_cases {tasks : List τ} {index other : Nat} {next task : τ}
    (found : (tasks.set index next)[other]? = some task) :
    (other = index ∧ task = next) ∨ (other ≠ index ∧ tasks[other]? = some task) := by
  by_cases same : index = other
  · subst same
    obtain ⟨inside, rfl⟩ := List.getElem?_eq_some_iff.mp found
    exact .inl ⟨rfl, List.getElem_set_self inside⟩
  · rw [List.getElem?_set_ne same] at found
    exact .inr ⟨Ne.symm same, found⟩

theorem getElem?_concat_cases {tasks : List τ} {index : Nat} {new task : τ}
    (found : (tasks ++ [new])[index]? = some task) :
    (index = tasks.length ∧ task = new) ∨ tasks[index]? = some task := by
  rw [getElem?_append] at found
  split at found
  · exact .inr found
  · next outside =>
    obtain ⟨inside, rfl⟩ := List.getElem?_eq_some_iff.mp found
    simp only [List.length_singleton] at inside
    exact .inl ⟨by omega, by simp⟩

theorem mem_concat_cases {tasks : List τ} {new task : τ} (member : task ∈ tasks ++ [new]) : task ∈ tasks ∨ task = new :=
  (mem_append.mp member).imp_right mem_singleton.mp

theorem concat_split_cases {tasks before after : List τ} {new task : τ} (split : tasks ++ [new] = before ++ task :: after) :
    (tasks = before ∧ new = task ∧ after = []) ∨ ∃ rest, after = rest ++ [new] ∧ tasks = before ++ task :: rest := by
  rcases eq_nil_or_concat after with rfl | ⟨rest, last, rfl⟩
  · obtain ⟨rfl, same⟩ := append_inj' split rfl
    exact .inl ⟨rfl, head_eq_of_cons_eq same, rfl⟩
  · rw [concat_eq_append, ← cons_append, ← append_assoc] at split
    obtain ⟨rfl, same⟩ := append_inj' split rfl
    refine .inr ⟨rest, ?_, rfl⟩
    rw [concat_eq_append, head_eq_of_cons_eq same]

theorem map_set_same {φ : Type} {tasks : List τ} {index : Nat} {old new : τ} (look : τ → φ) (found : tasks[index]? = some old)
    (same : look new = look old) : (tasks.set index new).map look = tasks.map look := by
  obtain ⟨inside, rfl⟩ := List.getElem?_eq_some_iff.mp found
  have value : (tasks.map look).get ⟨index, by simpa using inside⟩ = look tasks[index] := by simp
  rw [List.map_set, same, ← value]
  exact List.set_getElem_self _

theorem getElem?_append_kept {tasks : List τ} {index : Nat} {task : τ} (found : tasks[index]? = some task) (more : List τ) :
    (tasks ++ more)[index]? = some task := by
  rw [List.getElem?_append_left (List.getElem?_eq_some_iff.mp found).1, found]

end

section
variable {ε σ α β : Type} {task : EStateM ε σ α} {next : α → EStateM ε σ β} {state after : σ}

theorem bind_ok {value} (ran : task state = .ok value after) : (task >>= next) state = next value after := by
  simp only [Bind.bind, EStateM.bind, ran]

theorem bind_error {error} (ran : task state = .error error after) : (task >>= next) state = .error error after := by
  simp only [Bind.bind, EStateM.bind, ran]

end

end EventBase.Foundations
