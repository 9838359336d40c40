import EventBase.Foundations.NestedLocks

/-! What tasks on nested locks may rely on. While a task holds a lock the data only
changes as the lock's frame allows, because only a task that has the lock to itself may
change it otherwise. A task is judged alone, by what it knows of the data since its last
step; what is proved so holds in every interleaving. -/

namespace EventBase.Foundations.LockedData
open NestedLocks List
open FairLock (Mode Lock compatible admits_queue update_kept)

/-- `frame lock` is what can happen to the data while somebody else holds the lock. -/
structure Rules (L σ : Type) where
  invariant : σ → Prop
  frame : L → σ → σ → Prop
  refl : ∀ lock data, frame lock data data
  trans : ∀ lock {first second third}, frame lock first second → frame lock second third → frame lock first third

variable {L σ : Type}

/-- What the holder of these locks knows, when the data was `known` at its last step. -/
def Rules.Knows (rules : Rules L σ) (held : List (L × Mode)) (known data : σ) : Prop :=
  ∀ entry ∈ held, rules.frame entry.1 known data

variable [DecidableEq L]

/-- The task keeps the invariant, disturbs nobody's frame but that of the locks it has to
itself, takes no lock twice and gives all of them back. -/
def Follows (rules : Rules L σ) : Code L σ → List (L × Mode) → σ → Prop
  | .done, held, _ => held = []
  | .acquire lock mode update inside, held, known =>
    lock ∉ held.map Prod.fst ∧ ∀ data, rules.invariant data → rules.Knows held known data →
      rules.invariant (update data) ∧
        (∀ other, (other, .write) ∉ (lock, mode) :: held → rules.frame other data (update data)) ∧
        Follows rules (inside data) ((lock, mode) :: held) (update data)
  | .release lock rest, held, known => Follows rules rest (held.filter fun entry => entry.1 ≠ lock) known

/-- A task, the locks it holds and what it knows. -/
structure Tracked (rules : Rules L σ) (system : System L σ) (task : Nat) (code : Code L σ) (held : List (L × Mode))
    (known : σ) : Prop where
  follows : Follows rules code held known
  holds : ∀ lock mode, (task, mode) ∈ (system.locks lock).holders ↔ (lock, mode) ∈ held
  knows : rules.Knows held known system.data

structure Sound (rules : Rules L σ) (system : System L σ) : Prop where
  invariant : rules.invariant system.data
  tracked : ∀ (task : Nat) (code : Code L σ), system.codes[task]? = some code →
    ∃ held known, Tracked rules system task code held known
  exclusive : ∀ lock task other mode, (task, .write) ∈ (system.locks lock).holders →
    (other, mode) ∈ (system.locks lock).holders → other = task
  once : ∀ lock, ((system.locks lock).holders.map Prod.fst).Nodup
  present : ∀ lock task mode, (task, mode) ∈ (system.locks lock).holders → task < system.codes.length

section
variable {rules : Rules L σ} {system next : System L σ} {task : Nat}

omit [DecidableEq L] in
theorem Rules.Knows.trans {held known data after} (knows : rules.Knows held known data)
    (frames : ∀ entry ∈ held, rules.frame entry.1 data after) : rules.Knows held known after :=
  fun entry member => rules.trans entry.1 (knows entry member) (frames entry member)

theorem Sound.init {data} (invariant : rules.invariant data) : Sound rules { data } where
  invariant := invariant
  tracked _ _ found := by cases found
  exclusive _ _ _ _ member := by cases member
  once _ := nodup_nil
  present _ _ _ member := by cases member

theorem Sound.spawn (sound : Sound rules system) {code} (follows : Follows rules code [] system.data) :
    Sound rules { system with codes := system.codes ++ [code] } where
  invariant := sound.invariant
  tracked other found present := by
    rw [getElem?_append] at present
    split at present
    · obtain ⟨held, known, tracked⟩ := sound.tracked other found present
      exact ⟨held, known, tracked.follows, tracked.holds, tracked.knows⟩
    · next beyond =>
      have last : found = code := mem_singleton.mp (mem_of_getElem? present)
      subst last
      refine ⟨[], system.data, follows, fun lock mode => ⟨fun member => ?_, nofun⟩, nofun⟩
      exact absurd (sound.present lock other mode member) beyond
  exclusive := sound.exclusive
  once := sound.once
  present lock other mode member := by
    have within := sound.present lock other mode member
    rw [length_append]
    omega

theorem Sound.adjust (sound : Sound rules system) {after} (invariant : rules.invariant after)
    (frames : ∀ lock, rules.frame lock system.data after) : Sound rules { system with data := after } where
  invariant := invariant
  tracked task code found := by
    obtain ⟨held, known, tracked⟩ := sound.tracked task code found
    exact ⟨held, known, tracked.follows, tracked.holds, tracked.knows.trans fun entry _ => frames entry.1⟩
  exclusive := sound.exclusive
  once := sound.once
  present := sound.present

theorem compatible_holder {lock : Lock} {mode other holder} (admitted : lock.admits (task, mode) = true)
    (member : (holder, other) ∈ lock.holders) : mode = .read ∧ other = .read := by
  obtain ⟨fits, -⟩ := admits_queue admitted
  cases mode with
  | read =>
    simp only [compatible, all_eq_true, decide_eq_true_eq] at fits
    exact ⟨rfl, fits _ member⟩
  | write =>
    simp only [compatible, List.isEmpty_iff] at fits
    rw [fits] at member
    cases member

theorem mem_holders_grant {lock wanted mode other update rest holder} :
    (holder, other) ∈ ((system.grant task lock mode update rest).locks wanted).holders ↔
      (wanted = lock ∧ holder = task ∧ other = mode) ∨ (holder, other) ∈ (system.locks wanted).holders := by
  by_cases same : wanted = lock
  · subst same
    simp [System.grant]
  · simp [System.grant, same]

theorem Sound.grant {lock mode update inside} (sound : Sound rules system)
    (found : system.codes[task]? = some (.acquire lock mode update inside))
    (admitted : (system.locks lock).admits (task, mode) = true) :
    Sound rules (system.grant task lock mode update (inside system.data)) := by
  obtain ⟨held, known, ⟨fresh, after⟩, holds, knows⟩ := sound.tracked task _ found
  obtain ⟨invariant, frames, follows⟩ := after system.data sound.invariant knows
  have absent : ∀ other, (task, other) ∉ (system.locks lock).holders := by
    intro other member
    exact fresh (mem_map.mpr ⟨(lock, other), (holds lock other).mp member, rfl⟩)
  refine ⟨invariant, ?_, ?_, ?_, ?_⟩
  · intro other code present
    obtain ⟨rfl, rfl⟩ | ⟨different, present⟩ := getElem?_set_cases present
    · refine ⟨(lock, mode) :: held, update system.data, follows, fun wanted asked => ?_, fun entry _ => rules.refl _ _⟩
      rw [mem_holders_grant, mem_cons, holds wanted asked]
      simp
    · obtain ⟨others, earlier, tracked⟩ := sound.tracked other code present
      refine ⟨others, earlier, tracked.follows, fun wanted asked => ?_, tracked.knows.trans fun entry member => ?_⟩
      · rw [mem_holders_grant, tracked.holds wanted asked]
        simp [different]
      · -- The other task holds this lock, so the one that is let in has it at most for reading.
        have theirs := (tracked.holds entry.1 entry.2).mpr member
        apply frames
        intro own
        obtain here | before := mem_cons.mp own
        · cases here
          cases (compatible_holder admitted theirs).1
        · have mine := (holds entry.1 .write).mpr before
          exact different (sound.exclusive entry.1 task other entry.2 mine theirs)
  · intro wanted writer other asked exclusive member
    rw [mem_holders_grant] at exclusive member
    obtain ⟨rfl, rfl, rfl⟩ | exclusive := exclusive
    · obtain ⟨-, rfl, -⟩ | member := member
      · rfl
      · cases (compatible_holder admitted member).1
    · obtain ⟨rfl, rfl, rfl⟩ | member := member
      · cases (compatible_holder admitted exclusive).2
      · exact sound.exclusive wanted writer other asked exclusive member
  · intro wanted
    by_cases same : wanted = lock
    · subst same
      simp only [System.grant, Function.update_self, map_cons, nodup_cons]
      refine ⟨fun member => ?_, sound.once wanted⟩
      obtain ⟨⟨holder, other⟩, listed, rfl⟩ := mem_map.mp member
      exact absent other listed
    · simp only [System.grant, Function.update_of_ne same]
      exact sound.once wanted
  · intro wanted holder other member
    have length : (system.grant task lock mode update (inside system.data)).codes.length = system.codes.length :=
      length_set
    rw [length]
    obtain ⟨-, rfl, -⟩ | member := mem_holders_grant.mp member
    · exact (List.getElem?_eq_some_iff.mp found).1
    · exact sound.present wanted holder other member

theorem Sound.enqueue (sound : Sound rules system) (lock : L) (mode : Mode) :
    Sound rules (system.enqueue task lock mode) := by
  have holders : ∀ wanted, ((system.enqueue task lock mode).locks wanted).holders = (system.locks wanted).holders :=
    update_kept Lock.holders (by rfl)
  refine ⟨sound.invariant, fun other code present => ?_, ?_, ?_, ?_⟩
  · obtain ⟨held, known, tracked⟩ := sound.tracked other code present
    refine ⟨held, known, tracked.follows, fun wanted asked => ?_, tracked.knows⟩
    rw [holders]
    exact tracked.holds wanted asked
  · intro wanted writer other asked exclusive member
    rw [holders] at exclusive member
    exact sound.exclusive wanted writer other asked exclusive member
  · intro wanted
    rw [holders]
    exact sound.once wanted
  · intro wanted holder other member
    rw [holders] at member
    exact sound.present wanted holder other member

theorem mem_eraseP_key {α β : Type} [DecidableEq α] {entries : List (α × β)} (distinct : (entries.map Prod.fst).Nodup)
    (key : α) (entry : α × β) : entry ∈ entries.eraseP (fun other => other.1 = key) ↔ entry ∈ entries ∧ entry.1 ≠ key := by
  induction entries with
  | nil => simp
  | cons head rest ih =>
    obtain ⟨fresh, distinct⟩ := nodup_cons.mp distinct
    by_cases here : head.1 = key
    · have apart : entry ∈ rest → entry.1 ≠ key := by
        rintro member rfl
        exact fresh (mem_map.mpr ⟨entry, member, here.symm⟩)
      rw [eraseP_cons_of_pos (by simpa using here), mem_cons]
      constructor
      · exact fun member => ⟨.inr member, apart member⟩
      · rintro ⟨rfl | member, other⟩
        · exact absurd here other
        · exact member
    · rw [eraseP_cons_of_neg (by simpa using here), mem_cons, mem_cons, ih distinct]
      constructor
      · rintro (rfl | ⟨member, other⟩)
        · exact ⟨.inl rfl, here⟩
        · exact ⟨.inr member, other⟩
      · rintro ⟨rfl | member, other⟩
        · exact .inl rfl
        · exact .inr ⟨member, other⟩

theorem Sound.mem_holders_release (sound : Sound rules system) (lock : L) (rest : Code L σ) {wanted holder mode} :
    (holder, mode) ∈ ((system.release task lock rest).locks wanted).holders ↔
      (holder, mode) ∈ (system.locks wanted).holders ∧ ¬ (wanted = lock ∧ holder = task) := by
  by_cases same : wanted = lock
  · subst same
    simp only [System.release, Function.update_self, true_and]
    exact mem_eraseP_key (sound.once wanted) task (holder, mode)
  · simp [System.release, same]

theorem Sound.release {lock rest} (sound : Sound rules system)
    (found : system.codes[task]? = some (.release lock rest)) : Sound rules (system.release task lock rest) := by
  obtain ⟨held, known, follows, holds, knows⟩ := sound.tracked task _ found
  refine ⟨sound.invariant, ?_, ?_, ?_, ?_⟩
  · intro other code present
    obtain ⟨rfl, rfl⟩ | ⟨different, present⟩ := getElem?_set_cases present
    · refine ⟨held.filter fun entry => entry.1 ≠ lock, known, follows, fun wanted mode => ?_, fun entry member => ?_⟩
      · rw [sound.mem_holders_release, holds, mem_filter]
        simp
      · exact knows entry (mem_filter.mp member).1
    · obtain ⟨others, earlier, tracked⟩ := sound.tracked other code present
      refine ⟨others, earlier, tracked.follows, fun wanted mode => ?_, tracked.knows⟩
      rw [sound.mem_holders_release, tracked.holds]
      simp [different]
  · intro wanted writer other mode exclusive member
    exact sound.exclusive wanted writer other mode (sound.mem_holders_release lock rest |>.mp exclusive).1
      (sound.mem_holders_release lock rest |>.mp member).1
  · intro wanted
    by_cases same : wanted = lock
    · subst same
      simp only [System.release, Function.update_self]
      exact (sound.once wanted).sublist (eraseP_sublist.map Prod.fst)
    · simp only [System.release, Function.update_of_ne same]
      exact sound.once wanted
  · intro wanted holder mode member
    have length : (system.release task lock rest).codes.length = system.codes.length := length_set
    rw [length]
    exact sound.present wanted holder mode (sound.mem_holders_release lock rest |>.mp member).1

theorem Sound.step (sound : Sound rules system) (stepped : system.step task = some next) : Sound rules next := by
  cases step_moves stepped with
  | grant found admitted => exact sound.grant found admitted
  | enqueue => exact sound.enqueue _ _
  | release found => exact sound.release found

end

end EventBase.Foundations.LockedData
