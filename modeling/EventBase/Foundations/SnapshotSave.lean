import EventBase.Foundations.Run

/-! Calls that change a shared value under a write lock and then, under a read
lock, save a snapshot of it in a store that one call at a time may write. In any
interleaving the changes take effect one after the other, in an order that
respects real time, and the last snapshot saved is of the final value. -/

namespace EventBase.Foundations.SnapshotSave
open List Option

/-- `apply` changes the value and computes the reply; its input is read while the
write lock is held. -/
structure Machine (σ μ κ ι ρ : Type) where
  apply : κ → ι → μ → μ × ρ
  save : σ → μ → σ
  load : σ → μ
  load_save : ∀ store value, load (save store value) = value

/-- Where a call stands: before the write lock, inside it, between the locks,
inside the read lock, and inside the store's lock as well. -/
inductive Phase (μ ρ ε : Type) where
  | waiting
  | writing
  | written (reply : ρ)
  | reading (reply : ρ)
  | saving (reply : ρ) (snapshot : μ)
  | returned (result : Except ε ρ)

namespace Phase
variable {μ ρ ε : Type}

def isWriting : Phase μ ρ ε → Bool
  | writing => true
  | _ => false

def isReading : Phase μ ρ ε → Bool
  | reading _ | saving _ _ => true
  | _ => false

def isSaving : Phase μ ρ ε → Bool
  | saving _ _ => true
  | _ => false

def isReturned : Phase μ ρ ε → Bool
  | returned _ => true
  | _ => false

def hasApplied : Phase μ ρ ε → Bool
  | waiting | writing => false
  | written _ | reading _ | saving _ _ | returned _ => true

theorem hasApplied_of_isReturned {phase : Phase μ ρ ε} (returned : phase.isReturned = true) : phase.hasApplied = true := by
  cases phase with
  | returned result => rfl
  | _ => cases returned

end Phase

/-- A change that took effect: the call it belongs to and what it read. -/
structure Applied (κ ι : Type) where
  index : Nat
  call : κ
  input : ι

/-- Calls are numbered in the order in which they begin. `pasts` holds, for each of
them, those that had returned by then, and `applied` the changes in their order. -/
structure System (σ μ κ ι ρ ε : Type) where
  value : μ
  store : σ
  calls : List κ := []
  phases : List (Phase μ ρ ε) := []
  pasts : List (List Nat) := []
  applied : List (Applied κ ι) := []

/-- `input` is used by the step that changes the value, `error` by the one that saves it. -/
inductive Event (κ ι ε : Type) where
  | begin (call : κ)
  | advance (index : Nat) (input : ι) (error : Option ε)

variable {σ μ κ ι ρ ε : Type} (machine : Machine σ μ κ ι ρ)

def init (store : σ) : System σ μ κ ι ρ ε where
  value := machine.load store
  store := store

namespace System

def setPhase (system : System σ μ κ ι ρ ε) (index : Nat) (phase : Phase μ ρ ε) : System σ μ κ ι ρ ε :=
  { system with phases := system.phases.set index phase }

def past (system : System σ μ κ ι ρ ε) : List Nat :=
  (List.range system.phases.length).filter fun index => system.phases[index]?.any Phase.isReturned

def change (system : System σ μ κ ι ρ ε) (index : Nat) (call : κ) (input : ι) : System σ μ κ ι ρ ε :=
  { system.setPhase index (.written (machine.apply call input system.value).2) with
    value := (machine.apply call input system.value).1
    applied := system.applied ++ [⟨index, call, input⟩] }

def finish (system : System σ μ κ ι ρ ε) (index : Nat) (reply : ρ) (snapshot : μ) : Option ε → System σ μ κ ι ρ ε
  | none => { system.setPhase index (.returned (.ok reply)) with store := machine.save system.store snapshot }
  | some error => system.setPhase index (.returned (.error error))

def advance (system : System σ μ κ ι ρ ε) (index : Nat) (call : κ) (input : ι) (error : Option ε) :
    Phase μ ρ ε → Option (System σ μ κ ι ρ ε)
  | .waiting =>
    if system.phases.any Phase.isWriting || system.phases.any Phase.isReading then none
    else some (system.setPhase index .writing)
  | .writing => some (system.change machine index call input)
  | .written reply => if system.phases.any Phase.isWriting then none else some (system.setPhase index (.reading reply))
  | .reading reply =>
    if system.phases.any Phase.isSaving then none else some (system.setPhase index (.saving reply system.value))
  | .saving reply snapshot => some (system.finish machine index reply snapshot error)
  | .returned _ => none

def step (system : System σ μ κ ι ρ ε) : Event κ ι ε → Option (System σ μ κ ι ρ ε)
  | .begin call =>
    some { system with
      calls := system.calls ++ [call]
      phases := system.phases ++ [.waiting]
      pasts := system.pasts ++ [system.past] }
  | .advance index input error =>
    system.calls[index]?.bind fun call => system.phases[index]?.bind fun phase =>
      system.advance machine index call input error phase

def Precedes (system : System σ μ κ ι ρ ε) (first second : Nat) : Prop :=
  ∃ past, system.pasts[second]? = some past ∧ first ∈ past

end System

/-- Everything a step can do. -/
inductive Move (system : System σ μ κ ι ρ ε) : Event κ ι ε → System σ μ κ ι ρ ε → Prop
  | begin (call : κ) : Move system (.begin call)
      { system with
        calls := system.calls ++ [call]
        phases := system.phases ++ [.waiting]
        pasts := system.pasts ++ [system.past] }
  | lock {index : Nat} {input : ι} {error : Option ε} (found : system.phases[index]? = some .waiting)
      (unwritten : ∀ phase ∈ system.phases, phase.isWriting = false)
      (unread : ∀ phase ∈ system.phases, phase.isReading = false) :
      Move system (.advance index input error) (system.setPhase index .writing)
  | change {index : Nat} {call : κ} {input : ι} {error : Option ε} (called : system.calls[index]? = some call)
      (found : system.phases[index]? = some .writing) :
      Move system (.advance index input error) (system.change machine index call input)
  | read {index : Nat} {input : ι} {error : Option ε} {reply : ρ} (found : system.phases[index]? = some (.written reply))
      (unwritten : ∀ phase ∈ system.phases, phase.isWriting = false) :
      Move system (.advance index input error) (system.setPhase index (.reading reply))
  | snapshot {index : Nat} {input : ι} {error : Option ε} {reply : ρ}
      (found : system.phases[index]? = some (.reading reply)) :
      Move system (.advance index input error) (system.setPhase index (.saving reply system.value))
  | finish {index : Nat} {input : ι} {error : Option ε} {reply : ρ} {snapshot : μ}
      (found : system.phases[index]? = some (.saving reply snapshot)) :
      Move system (.advance index input error) (system.finish machine index reply snapshot error)

variable {machine} {system next : System σ μ κ ι ρ ε} {event : Event κ ι ε}

theorem step_moves (stepped : system.step machine event = some next) : Move machine system event next := by
  cases event with
  | begin call =>
    cases stepped
    exact .begin call
  | advance index input error =>
    obtain ⟨call, called, rest⟩ := bind_eq_some_iff.mp stepped
    obtain ⟨phase, found, advanced⟩ := bind_eq_some_iff.mp rest
    cases phase with
    | waiting =>
      simp only [System.advance] at advanced
      split at advanced
      · cases advanced
      · next free =>
        cases advanced
        simp only [Bool.or_eq_true, List.any_eq_true, not_or, not_exists, not_and, Bool.not_eq_true] at free
        exact .lock found free.1 free.2
    | writing =>
      cases advanced
      exact .change called found
    | written reply =>
      simp only [System.advance] at advanced
      split at advanced
      · cases advanced
      · next free =>
        cases advanced
        simp only [List.any_eq_true, not_exists, not_and, Bool.not_eq_true] at free
        exact .read found free
    | reading reply =>
      simp only [System.advance] at advanced
      split at advanced
      · cases advanced
      · cases advanced
        exact .snapshot found
    | saving reply snapshot =>
      cases advanced
      exact .finish found
    | returned result => cases advanced

structure Exclusive (system : System σ μ κ ι ρ ε) : Prop where
  alone : ∀ (index other : Nat) (phase : Phase μ ρ ε), system.phases[index]? = some .writing →
    system.phases[other]? = some phase → phase.isReading = false ∧ (phase.isWriting = true → other = index)
  current : ∀ (index : Nat) (reply : ρ) (snapshot : μ), system.phases[index]? = some (.saving reply snapshot) →
    snapshot = system.value

theorem Exclusive.setQuiet (exclusive : Exclusive system) (index : Nat) {phase} (unwritten : phase.isWriting = false)
    (unread : phase.isReading = false) : Exclusive (system.setPhase index phase) := by
  refine ⟨fun writer other seen writing present => ?_, fun saver reply snapshot saving => ?_⟩
  · obtain ⟨_, rfl⟩ | ⟨_, writing⟩ := getElem?_set_cases writing
    · cases unwritten
    · obtain ⟨_, rfl⟩ | ⟨_, present⟩ := getElem?_set_cases present
      · exact ⟨unread, fun held => by rw [unwritten] at held; cases held⟩
      · exact exclusive.alone writer other seen writing present
  · obtain ⟨_, rfl⟩ | ⟨_, saving⟩ := getElem?_set_cases saving
    · cases unread
    · exact exclusive.current saver reply snapshot saving

theorem Exclusive.move (exclusive : Exclusive system) (move : Move machine system event next) : Exclusive next := by
  cases move with
  | begin call =>
    refine ⟨fun writer other seen writing present => ?_, fun saver reply snapshot saving => ?_⟩
    · obtain ⟨_, same⟩ | writing := getElem?_concat_cases writing
      · cases same
      · obtain ⟨_, rfl⟩ | present := getElem?_concat_cases present
        · exact ⟨rfl, fun held => by cases held⟩
        · exact exclusive.alone writer other seen writing present
    · obtain ⟨_, same⟩ | saving := getElem?_concat_cases saving
      · cases same
      · exact exclusive.current saver reply snapshot saving
  | lock found unwritten unread =>
    refine ⟨fun writer other seen writing present => ?_, fun saver reply snapshot saving => ?_⟩
    · obtain ⟨rfl, _⟩ | ⟨_, writing⟩ := getElem?_set_cases writing
      · obtain ⟨rfl, rfl⟩ | ⟨_, present⟩ := getElem?_set_cases present
        · exact ⟨rfl, fun _ => rfl⟩
        · refine ⟨unread seen (mem_of_getElem? present), fun held => ?_⟩
          rw [unwritten seen (mem_of_getElem? present)] at held
          cases held
      · cases unwritten _ (mem_of_getElem? writing)
    · obtain ⟨_, same⟩ | ⟨_, saving⟩ := getElem?_set_cases saving
      · cases same
      · exact exclusive.current saver reply snapshot saving
  | @change index call input error called found =>
    have quiet : Exclusive (system.setPhase index (.written (machine.apply call input system.value).2)) :=
      exclusive.setQuiet index rfl rfl
    refine ⟨quiet.alone, fun saver reply snapshot saving => ?_⟩
    -- nobody reads while the value changes
    obtain ⟨_, same⟩ | ⟨_, saving⟩ := getElem?_set_cases saving
    · cases same
    · cases (exclusive.alone index saver _ found saving).1
  | read found unwritten =>
    refine ⟨fun writer other seen writing present => ?_, fun saver reply snapshot saving => ?_⟩
    · obtain ⟨_, same⟩ | ⟨_, writing⟩ := getElem?_set_cases writing
      · cases same
      · cases unwritten _ (mem_of_getElem? writing)
    · obtain ⟨_, same⟩ | ⟨_, saving⟩ := getElem?_set_cases saving
      · cases same
      · exact exclusive.current saver reply snapshot saving
  | @snapshot index input error reply found =>
    refine ⟨fun writer other seen writing present => ?_, fun saver reply snapshot saving => ?_⟩
    · obtain ⟨_, same⟩ | ⟨_, writing⟩ := getElem?_set_cases writing
      · cases same
      · cases (exclusive.alone writer index _ writing found).1
    · obtain ⟨_, same⟩ | ⟨_, saving⟩ := getElem?_set_cases saving
      · cases same
        rfl
      · exact exclusive.current saver reply snapshot saving
  | @finish index input error reply snapshot found =>
    cases error with
    | none =>
      have quiet : Exclusive (system.setPhase index (.returned (.ok reply))) := exclusive.setQuiet index rfl rfl
      exact ⟨quiet.alone, quiet.current⟩
    | some error => exact exclusive.setQuiet index rfl rfl

def replay (machine : Machine σ μ κ ι ρ) (initial : μ) (applied : List (Applied κ ι)) : μ :=
  applied.foldl (fun value change => (machine.apply change.call change.input value).1) initial

/-- The value is the result of the changes one after the other, one per call whose
change has taken effect, and no call is placed before one that had returned when
it began. -/
structure Linear (machine : Machine σ μ κ ι ρ) (initial : μ) (system : System σ μ κ ι ρ ε) : Prop where
  numbered : system.calls.length = system.phases.length
  paired : system.pasts.length = system.phases.length
  value : system.value = replay machine initial system.applied
  distinct : (system.applied.map Applied.index).Nodup
  effective : ∀ index, index ∈ system.applied.map Applied.index ↔
    ∃ phase, system.phases[index]? = some phase ∧ phase.hasApplied = true
  called : ∀ change ∈ system.applied, system.calls[change.index]? = some change.call
  realTime : system.applied.Pairwise fun first second => ¬ system.Precedes second.index first.index
  past : ∀ (index : Nat) (past : List Nat), system.pasts[index]? = some past → ∀ earlier ∈ past,
    ∃ phase, system.phases[earlier]? = some phase ∧ phase.isReturned = true

theorem Linear.init (machine : Machine σ μ κ ι ρ) (store : σ) :
    Linear machine (machine.load store) (init machine store : System σ μ κ ι ρ ε) where
  numbered := rfl
  paired := rfl
  value := rfl
  distinct := nodup_nil
  effective _ := by simp [SnapshotSave.init]
  called _ member := by cases member
  realTime := .nil
  past _ _ found := by simp [SnapshotSave.init] at found

theorem Linear.setPhase {initial} (linear : Linear machine initial system) {index old phase}
    (found : system.phases[index]? = some old) (applied : phase.hasApplied = old.hasApplied)
    (unfinished : old.isReturned = false) : Linear machine initial (system.setPhase index phase) := by
  have inside : index < system.phases.length := (List.getElem?_eq_some_iff.mp found).1
  refine ⟨linear.numbered.trans (length_set).symm, linear.paired.trans (length_set).symm, linear.value, linear.distinct, fun other => ?_, linear.called,
    linear.realTime, fun other past present earlier member => ?_⟩
  · refine (linear.effective other).trans ?_
    by_cases same : index = other
    · subst same
      simp only [System.setPhase, getElem?_set_self inside, found, Option.some.injEq, exists_eq_left', applied]
    · simp only [System.setPhase, getElem?_set_ne same]
  · obtain ⟨seen, returned, done⟩ := linear.past other past present earlier member
    have different : index ≠ earlier := by
      rintro rfl
      cases found.symm.trans returned
      rw [unfinished] at done
      cases done
    exact ⟨seen, (getElem?_set_ne different).trans returned, done⟩

theorem Linear.change {initial} (linear : Linear machine initial system) {index call} (input : ι)
    (called : system.calls[index]? = some call) (found : system.phases[index]? = some .writing) :
    Linear machine initial (system.change machine index call input) := by
  have inside : index < system.phases.length := (List.getElem?_eq_some_iff.mp found).1
  have fresh : index ∉ system.applied.map Applied.index := by
    rw [linear.effective]
    rintro ⟨phase, present, applied⟩
    cases found.symm.trans present
    cases applied
  refine ⟨linear.numbered.trans (length_set).symm, linear.paired.trans (length_set).symm, ?_, ?_, fun other => ?_, ?_, ?_, fun other past present earlier member => ?_⟩
  · simp only [System.change, replay, foldl_append, foldl_cons, foldl_nil]
    rw [← replay, ← linear.value]
  · simp only [System.change, map_append, map_cons, map_nil]
    refine nodup_append.mpr ⟨linear.distinct, by simp, fun other member last newest same => ?_⟩
    rw [same, mem_singleton.mp newest] at member
    exact fresh member
  · simp only [System.change, System.setPhase, map_append, map_cons, map_nil, mem_append,
      mem_singleton, linear.effective other]
    by_cases same : index = other
    · subst same
      simp [getElem?_set_self inside, Phase.hasApplied]
    · simp [getElem?_set_ne same, Ne.symm same]
  · intro change member
    rcases mem_append.mp member with old | new
    · exact linear.called change old
    · rw [mem_singleton.mp new]
      exact called
  · refine pairwise_append.mpr ⟨linear.realTime, pairwise_singleton _ _, fun first _ second member => ?_⟩
    rw [mem_singleton.mp member]
    rintro ⟨past, present, earlier⟩
    obtain ⟨phase, returned, done⟩ := linear.past first.index past present index earlier
    cases found.symm.trans returned
    cases done
  · obtain ⟨seen, returned, done⟩ := linear.past other past present earlier member
    have different : index ≠ earlier := by
      rintro rfl
      cases found.symm.trans returned
      cases done
    exact ⟨seen, (getElem?_set_ne different).trans returned, done⟩

theorem mem_past {index} (member : index ∈ system.past) :
    ∃ phase, system.phases[index]? = some phase ∧ phase.isReturned = true := by
  simp only [System.past, List.mem_filter, Option.any_eq_true] at member
  exact member.2

theorem Linear.begin {initial} (linear : Linear machine initial system) (call : κ) :
    Linear machine initial { system with
      calls := system.calls ++ [call]
      phases := system.phases ++ [.waiting]
      pasts := system.pasts ++ [system.past] } := by
  refine ⟨by simp [linear.numbered], by simp [linear.paired], linear.value, linear.distinct, fun index => ?_,
    fun change member => getElem?_append_kept (linear.called change member) _, ?_, fun index past present earlier member => ?_⟩
  · rw [linear.effective]
    constructor
    · rintro ⟨phase, found, applied⟩
      exact ⟨phase, getElem?_append_kept found _, applied⟩
    · rintro ⟨phase, found, applied⟩
      obtain ⟨_, rfl⟩ | found := getElem?_concat_cases found
      · cases applied
      · exact ⟨phase, found, applied⟩
  · refine linear.realTime.imp_of_mem fun {first second} member _ unordered => ?_
    rintro ⟨past, present, earlier⟩
    -- the first of the two has taken effect, so it is not the call that begins
    obtain ⟨phase, found, _⟩ := (linear.effective first.index).mp (List.mem_map_of_mem member)
    obtain ⟨last, _⟩ | present := getElem?_concat_cases present
    · exact absurd (List.getElem?_eq_some_iff.mp found).1 (by rw [last, linear.paired]; exact Nat.lt_irrefl _)
    · exact unordered ⟨past, present, earlier⟩
  · obtain ⟨_, rfl⟩ | present := getElem?_concat_cases present
    · obtain ⟨phase, found, done⟩ := mem_past member
      exact ⟨phase, getElem?_append_kept found _, done⟩
    · obtain ⟨phase, found, done⟩ := linear.past index past present earlier member
      exact ⟨phase, getElem?_append_kept found _, done⟩

theorem Linear.move {initial} (linear : Linear machine initial system) (move : Move machine system event next) :
    Linear machine initial next := by
  cases move with
  | begin call => exact linear.begin call
  | lock found | read found | snapshot found => exact linear.setPhase found rfl rfl
  | @change index call input error called found => exact linear.change input called found
  | @finish index input error reply snapshot found =>
    cases error with
    | none =>
      have returned : Linear machine initial (system.setPhase index (.returned (.ok reply))) :=
        linear.setPhase found rfl rfl
      exact ⟨returned.numbered, returned.paired, returned.value, returned.distinct, returned.effective, returned.called, returned.realTime,
        returned.past⟩
    | some error => exact linear.setPhase found rfl rfl

def Owing (system : System σ μ κ ι ρ ε) : Prop :=
  ∃ (index : Nat) (phase : Phase μ ρ ε), system.phases[index]? = some phase ∧ phase.hasApplied = true ∧
    phase.isReturned = false

def Saved (machine : Machine σ μ κ ι ρ) (system : System σ μ κ ι ρ ε) : Prop :=
  machine.load system.store = system.value ∨ Owing system

def Event.succeeds : Event κ ι ε → Prop
  | .advance _ _ (some _) => False
  | _ => True

theorem Owing.set {index phase} (inside : index < system.phases.length) (applied : phase.hasApplied = true)
    (unfinished : phase.isReturned = false) :
    Owing (system.setPhase index phase) := ⟨index, phase, getElem?_set_self inside, applied, unfinished⟩

theorem Saved.move (saved : Saved machine system) (exclusive : Exclusive system) (succeeds : event.succeeds)
    (move : Move machine system event next) : Saved machine next := by
  cases move with
  | begin call =>
    obtain same | ⟨index, phase, found, owing⟩ := saved
    · exact .inl same
    · exact .inr ⟨index, phase, getElem?_append_kept found _, owing⟩
  | @lock index input error found unwritten unread =>
    obtain same | ⟨other, phase, present, owing⟩ := saved
    · exact .inl same
    · have different : index ≠ other := by
        rintro rfl
        cases found.symm.trans present
        cases owing.1
      exact .inr ⟨other, phase, (List.getElem?_set_ne different).trans present, owing⟩
  | change called found => exact .inr (Owing.set (List.getElem?_eq_some_iff.mp found).1 rfl rfl)
  | read found | snapshot found => exact .inr (Owing.set (List.getElem?_eq_some_iff.mp found).1 rfl rfl)
  | @finish index input error reply snapshot found =>
    cases error with
    | none =>
      refine .inl ?_
      rw [exclusive.current index reply snapshot found]
      exact machine.load_save _ _
    | some error => exact succeeds.elim

theorem Linear.applied_perm {initial} (linear : Linear machine initial system)
    (quiet : ∀ phase ∈ system.phases, phase.isReturned = true) :
    (system.applied.map Applied.index).Perm (List.range system.calls.length) := by
  refine (perm_ext_iff_of_nodup linear.distinct nodup_range).mpr fun index => ?_
  rw [linear.effective, mem_range, linear.numbered]
  constructor
  · rintro ⟨phase, found, _⟩
    exact (List.getElem?_eq_some_iff.mp found).1
  · intro inside
    have found : system.phases[index]? = some system.phases[index] := getElem?_eq_getElem inside
    exact ⟨_, found, Phase.hasApplied_of_isReturned (quiet _ (getElem_mem inside))⟩

/-- Once every call has returned the store holds the value, and the value is the
result of one change per call, in an order that respects real time. -/
theorem saved_in_order {store events} {system : System σ μ κ ι ρ ε}
    (ran : run (System.step machine) (init machine store) events = some system)
    (succeeds : ∀ event ∈ events, event.succeeds) (quiet : ∀ phase ∈ system.phases, phase.isReturned = true) :
    machine.load system.store = system.value ∧ Linear machine (machine.load store) system := by
  have linear : Linear machine (machine.load store) system :=
    run_preserves (Linear machine (machine.load store)) (fun kept stepped => kept.move (step_moves stepped))
      (.init machine store) ran
  refine ⟨?_, linear⟩
  have empty : Exclusive (init machine store : System σ μ κ ι ρ ε) :=
    ⟨fun _ _ _ found => by simp [init] at found, fun _ _ _ found => by simp [init] at found⟩
  have admitted : Along (System.step machine) (fun _ event => event.succeeds) (init machine store) events :=
    along_of_prefixes fun before event rest _ split _ =>
      succeeds event (split ▸ mem_append_right _ mem_cons_self)
  obtain ⟨saved, _⟩ : Saved machine system ∧ Exclusive system :=
    run_invariant (fun system => Saved machine system ∧ Exclusive system)
      (fun succeeds kept stepped => ⟨kept.1.move kept.2 succeeds (step_moves stepped), kept.2.move (step_moves stepped)⟩)
      admitted ⟨.inl rfl, empty⟩ ran
  obtain same | ⟨index, phase, found, _, unfinished⟩ := saved
  · exact same
  · rw [quiet phase (mem_of_getElem? found)] at unfinished
    cases unfinished

end EventBase.Foundations.SnapshotSave
