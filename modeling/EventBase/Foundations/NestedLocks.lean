import EventBase.Foundations.Counting
import EventBase.Foundations.FairLock

/-! Tasks that hold several fair locks at a time, possibly one lock more than once.
If each of them takes its locks in ascending order no set of tasks can wait for one
another; locks that are only read may be taken in any order. -/

namespace EventBase.Foundations.NestedLocks
open FairLock List Option Function

/-- What a task has left to do. The data is read and changed when a lock is
granted; what follows may depend on what was found. -/
inductive Code (L σ : Type) where
  | done
  | acquire (lock : L) (mode : Mode) (update : σ → σ) (inside : σ → Code L σ)
  | release (lock : L) (rest : Code L σ)

structure System (L σ : Type) where
  data : σ
  locks : L → Lock := fun _ => {}
  codes : List (Code L σ) := []

namespace Code
variable {L σ : Type}

def guard (lock : L) (mode : Mode) (update : σ → σ) (rest : σ → Code L σ) : Code L σ :=
  acquire lock mode update fun data => release lock (rest data)

def effect : Code L σ → σ → σ
  | done, data => data
  | acquire _ _ update inside, data => (inside data).effect (update data)
  | release _ rest, data => rest.effect data

/-- Whatever it finds, the task asks only for locks above those it holds. -/
def Ascends [DecidableEq L] (rank : L → Nat) : Code L σ → List L → Prop
  | done, _ => True
  | acquire lock _ _ inside, held => (∀ other ∈ held, rank other < rank lock) ∧ ∀ data, (inside data).Ascends rank (lock :: held)
  | release lock rest, held => rest.Ascends rank (held.filter (fun other => other ≠ lock))

end Code

/-- How tasks take their locks: in the order of `rank`, but for the `shared` ones, which
they only read. They may rely on `good` about the data and have to keep it. -/
structure Discipline (L σ : Type) where
  rank : L → Nat
  shared : L → Bool := fun _ => false
  good : σ → Prop := fun _ => True

/-- `held` lists the locks the task has, one as often as it holds it. -/
def Code.Obeys {L σ : Type} [DecidableEq L] (discipline : Discipline L σ) : Code L σ → List L → Prop
  | done, _ => True
  | acquire lock mode update inside, held =>
    (if discipline.shared lock = true then mode = .read
      else ∀ other ∈ held, discipline.shared other = false → discipline.rank other < discipline.rank lock) ∧
    ∀ data, discipline.good data → discipline.good (update data) ∧ (inside data).Obeys discipline (lock :: held)
  | release lock rest, held => rest.Obeys discipline (held.erase lock)

namespace System
variable {L σ : Type}

def Holds (system : System L σ) (task : Nat) (lock : L) : Prop := ∃ mode, (task, mode) ∈ (system.locks lock).holders

/-- The task stands in the queue of the lock and is not let in. -/
def Waits (system : System L σ) (task : Nat) (lock : L) : Prop :=
  ∃ mode update inside, system.codes[task]? = some (.acquire lock mode update inside) ∧
    (task, mode) ∈ (system.locks lock).waiting ∧ (system.locks lock).admits (task, mode) = false

/-- Each of the tasks waits for a lock that another of them holds. -/
structure Deadlocked (system : System L σ) (tasks : Finset Nat) : Prop where
  nonempty : tasks.Nonempty
  stuck : ∀ task ∈ tasks, ∃ lock, system.Waits task lock ∧ ∃ other ∈ tasks, other ≠ task ∧ system.Holds other lock

def Ahead (system : System L σ) (other task : Nat) (lock : L) : Prop :=
  ∃ before mode after, (system.locks lock).waiting = before ++ (task, mode) :: after ∧ other ∈ before.map Prod.fst

/-- Each of the tasks waits for a lock that another of them holds or is to get first. -/
structure Stalled (system : System L σ) (tasks : Finset Nat) : Prop where
  nonempty : tasks.Nonempty
  stuck : ∀ task ∈ tasks, ∃ lock, system.Waits task lock ∧
    ∃ other ∈ tasks, other ≠ task ∧ (system.Holds other lock ∨ system.Ahead other task lock)

theorem Deadlocked.stalled {system : System L σ} {tasks} (deadlocked : system.Deadlocked tasks) :
    system.Stalled tasks := by
  refine ⟨deadlocked.nonempty, fun task member => ?_⟩
  obtain ⟨lock, waits, other, inside, different, holds⟩ := deadlocked.stuck task member
  exact ⟨lock, waits, other, inside, different, .inl holds⟩

section
variable [DecidableEq L]

def guards (system : System L σ) (task : Nat) (lock : L) : Nat :=
  (system.locks lock).holders.countP fun holder => holder.1 = task

def grant (system : System L σ) (task : Nat) (lock : L) (mode : Mode) (update : σ → σ) (rest : Code L σ) : System L σ where
  data := update system.data
  locks := Function.update system.locks lock
    { holders := (task, mode) :: (system.locks lock).holders, waiting := (system.locks lock).waiting.tail }
  codes := system.codes.set task rest

def enqueue (system : System L σ) (task : Nat) (lock : L) (mode : Mode) : System L σ :=
  { system with
    locks := update system.locks lock
      { holders := (system.locks lock).holders, waiting := (system.locks lock).waiting ++ [(task, mode)] } }

def release (system : System L σ) (task : Nat) (lock : L) (rest : Code L σ) : System L σ where
  data := system.data
  locks := update system.locks lock
    { holders := (system.locks lock).holders.eraseP (fun holder => holder.1 = task)
      waiting := (system.locks lock).waiting }
  codes := system.codes.set task rest

def step (system : System L σ) (task : Nat) : Option (System L σ) :=
  match system.codes[task]? with
  | some (.acquire lock mode update inside) =>
    if (system.locks lock).admits (task, mode) then some (system.grant task lock mode update (inside system.data))
    else if (task, mode) ∈ (system.locks lock).waiting then none
    else some (system.enqueue task lock mode)
  | some (.release lock rest) => some (system.release task lock rest)
  | _ => none

end

end System

section
variable {L σ : Type} [DecidableEq L] {system next : System L σ} {task : Nat}

/-- Everything a step can do. -/
inductive Move (system : System L σ) (task : Nat) : System L σ → Prop
  | grant {lock : L} {mode : Mode} {update : σ → σ} {inside : σ → Code L σ}
      (found : system.codes[task]? = some (.acquire lock mode update inside))
      (admitted : (system.locks lock).admits (task, mode) = true) :
      Move system task (system.grant task lock mode update (inside system.data))
  | enqueue {lock : L} {mode : Mode} {update : σ → σ} {inside : σ → Code L σ}
      (found : system.codes[task]? = some (.acquire lock mode update inside))
      (refused : (system.locks lock).admits (task, mode) = false) (absent : (task, mode) ∉ (system.locks lock).waiting) :
      Move system task (system.enqueue task lock mode)
  | release {lock : L} {rest : Code L σ} (found : system.codes[task]? = some (.release lock rest)) :
      Move system task (system.release task lock rest)

theorem step_moves (stepped : system.step task = some next) : Move system task next := by
  revert stepped
  fun_cases System.step system task
  all_goals
    intro stepped
    cases stepped
  · next found admitted => exact .grant found admitted
  · next found refused absent => exact .enqueue found (Bool.eq_false_iff.mpr refused) absent
  · next found => exact .release found

omit [DecidableEq L] in
theorem guards_pos {holder lock} (holds : system.Holds holder lock) : 0 < system.guards holder lock := by
  obtain ⟨mode, member⟩ := holds
  exact countP_pos_iff.mpr ⟨_, member, by simp⟩

theorem guards_grant (holder : Nat) (lock other : L) (mode : Mode) (update : σ → σ) (rest : Code L σ) :
    (system.grant task lock mode update rest).guards holder other =
      system.guards holder other + if other = lock ∧ holder = task then 1 else 0 := by
  by_cases same : other = lock
  · subst same
    simp [System.guards, System.grant, countP_cons, eq_comm]
  · simp [System.guards, System.grant, same]

theorem guards_enqueue (holder : Nat) (lock other : L) (mode : Mode) :
    (system.enqueue task lock mode).guards holder other = system.guards holder other :=
  update_kept (fun lock => lock.holders.countP fun entry : Nat × Mode => entry.1 = holder) (by rfl) other

theorem guards_release_le (holder : Nat) (lock other : L) (rest : Code L σ) :
    (system.release task lock rest).guards holder other ≤ system.guards holder other := by
  by_cases same : other = lock
  · subst same
    simp only [System.guards, System.release, update_self]
    exact (eraseP_sublist).countP_le
  · simp [System.guards, System.release, update_of_ne same]

theorem guards_release_own (lock : L) (rest : Code L σ) :
    (system.release task lock rest).guards task lock = system.guards task lock - 1 := by
  simp only [System.guards, System.release, update_self]
  exact countP_eraseP_self _

/-- The locks and the queues as the discipline leaves them. -/
structure Disciplined (discipline : Discipline L σ) (system : System L σ) : Prop where
  good : discipline.good system.data
  obeys : ∀ (task : Nat) (code : Code L σ), system.codes[task]? = some code →
    ∃ held, code.Obeys discipline held ∧ ∀ lock, system.guards task lock ≤ held.count lock
  queued : ∀ lock task mode, (task, mode) ∈ (system.locks lock).waiting →
    ∃ update inside, system.codes[task]? = some (.acquire lock mode update inside)
  distinct : ∀ lock, (system.locks lock).waiting.Nodup
  shared : ∀ lock, discipline.shared lock = true →
    (system.locks lock).waiting = [] ∧ ∀ holder ∈ (system.locks lock).holders, holder.2 = .read

variable {discipline : Discipline L σ}

theorem Disciplined.init {data codes} (good : discipline.good data) (obeys : ∀ code ∈ codes, code.Obeys discipline []) :
    Disciplined discipline { data, codes } where
  good := good
  obeys task code found := ⟨[], obeys code (mem_of_getElem? found), fun _ => Nat.le_refl 0⟩
  queued _ _ _ member := by cases member
  distinct _ := .nil
  shared _ _ := ⟨rfl, by simp⟩

theorem admits_shared {lock : Lock} {task} (empty : lock.waiting = [])
    (readers : ∀ holder ∈ lock.holders, holder.2 = .read) :
    lock.admits (task, .read) = true := by
  simp only [Lock.admits, compatible, empty, List.head?_nil, Option.all_none, Bool.and_true, List.all_eq_true,
    decide_eq_true_eq]
  exact readers

theorem Disciplined.grant {lock mode update inside} (disciplined : Disciplined discipline system)
    (found : system.codes[task]? = some (.acquire lock mode update inside))
    (admitted : (system.locks lock).admits (task, mode) = true) :
    Disciplined discipline (system.grant task lock mode update (inside system.data)) := by
  obtain ⟨held, ⟨order, after⟩, covers⟩ := disciplined.obeys task _ found
  obtain ⟨good, obeys⟩ := after system.data disciplined.good
  -- The task has left the only queue it stood in.
  have gone : ∀ wanted other held, (other, held) ∈ ((system.grant task lock mode update (inside system.data)).locks wanted).waiting →
      other ≠ task ∧ (other, held) ∈ (system.locks wanted).waiting := by
    intro wanted other asked member
    obtain ⟨rfl, tail⟩ | ⟨elsewhere, before⟩ := mem_update Lock.waiting member
    · refine ⟨?_, mem_of_mem_tail tail⟩
      rintro rfl
      obtain ⟨_, _, also⟩ := disciplined.queued wanted other asked (mem_of_mem_tail tail)
      cases found.symm.trans also
      exact admits_leaves admitted (disciplined.distinct wanted) tail
    · refine ⟨?_, before⟩
      rintro rfl
      obtain ⟨_, _, also⟩ := disciplined.queued wanted other asked before
      cases found.symm.trans also
      exact elsewhere rfl
  refine ⟨good, ?_, ?_, ?_, ?_⟩
  · intro other code present
    obtain ⟨rfl, rfl⟩ | ⟨different, present⟩ := getElem?_set_cases present
    · refine ⟨lock :: held, obeys, fun wanted => ?_⟩
      have before := covers wanted
      rw [guards_grant, count_cons]
      by_cases same : wanted = lock
      · subst same
        simpa using before
      · simpa [same, Ne.symm same] using before
    · obtain ⟨held, obeys, covers⟩ := disciplined.obeys other code present
      refine ⟨held, obeys, fun wanted => ?_⟩
      rw [guards_grant, if_neg fun both => different both.2]
      exact covers wanted
  · intro wanted other asked member
    obtain ⟨different, before⟩ := gone wanted other asked member
    obtain ⟨change, rest, present⟩ := disciplined.queued wanted other asked before
    exact ⟨change, rest, by rw [System.grant, getElem?_set_ne different.symm, present]⟩
  · exact update_distinct disciplined.distinct ((disciplined.distinct lock).sublist (tail_sublist _))
  · intro wanted read
    by_cases same : wanted = lock
    · subst same
      obtain ⟨empty, readers⟩ := disciplined.shared wanted read
      rw [if_pos read] at order
      simp only [System.grant, Function.update_self, empty, tail_nil, mem_cons, true_and]
      rintro holder (rfl | member)
      · exact order
      · exact readers holder member
    · simp only [System.grant, Function.update_of_ne same]
      exact disciplined.shared wanted read

theorem Disciplined.enqueue {lock mode update inside} (disciplined : Disciplined discipline system)
    (found : system.codes[task]? = some (.acquire lock mode update inside))
    (refused : (system.locks lock).admits (task, mode) = false) (absent : (task, mode) ∉ (system.locks lock).waiting) :
    Disciplined discipline (system.enqueue task lock mode) := by
  have exclusive : discipline.shared lock = false := by
    rw [← Bool.not_eq_true]
    intro read
    obtain ⟨_, ⟨order, _⟩, _⟩ := disciplined.obeys task _ found
    obtain ⟨empty, readers⟩ := disciplined.shared lock read
    rw [if_pos read] at order
    subst order
    rw [admits_shared empty readers] at refused
    cases refused
  refine ⟨disciplined.good, ?_, ?_, ?_, ?_⟩
  · intro other code present
    obtain ⟨held, obeys, covers⟩ := disciplined.obeys other code present
    exact ⟨held, obeys, fun wanted => by rw [guards_enqueue]; exact covers wanted⟩
  · intro wanted other asked member
    obtain ⟨rfl, there⟩ | ⟨_, before⟩ := mem_update Lock.waiting member
    · obtain before | new := mem_append.mp there
      · exact disciplined.queued wanted other asked before
      · cases mem_singleton.mp new
        exact ⟨update, inside, found⟩
    · exact disciplined.queued wanted other asked before
  · exact update_distinct disciplined.distinct (nodup_joined (disciplined.distinct lock) absent)
  · intro wanted read
    have same : wanted ≠ lock := by
      rintro rfl
      rw [exclusive] at read
      cases read
    simp only [System.enqueue, update_of_ne same]
    exact disciplined.shared wanted read

theorem Disciplined.release {lock rest} (disciplined : Disciplined discipline system)
    (found : system.codes[task]? = some (.release lock rest)) : Disciplined discipline (system.release task lock rest) := by
  have queues : ∀ wanted, ((system.release task lock rest).locks wanted).waiting = (system.locks wanted).waiting :=
    update_kept Lock.waiting (by rfl)
  refine ⟨disciplined.good, ?_, ?_, ?_, ?_⟩
  · intro other code present
    obtain ⟨rfl, rfl⟩ | ⟨different, present⟩ := getElem?_set_cases present
    · obtain ⟨held, obeys, covers⟩ := disciplined.obeys _ _ found
      refine ⟨held.erase lock, obeys, fun wanted => ?_⟩
      by_cases same : wanted = lock
      · subst same
        rw [guards_release_own, count_erase_self]
        exact Nat.sub_le_sub_right (covers wanted) 1
      · rw [count_erase_of_ne same]
        exact (guards_release_le _ lock wanted _).trans (covers wanted)
    · obtain ⟨held, obeys, covers⟩ := disciplined.obeys other code present
      exact ⟨held, obeys, fun wanted => (guards_release_le other lock wanted rest).trans (covers wanted)⟩
  · intro wanted other asked member
    rw [queues] at member
    obtain ⟨update, inside, present⟩ := disciplined.queued wanted other asked member
    have different : other ≠ task := by
      rintro rfl
      cases found.symm.trans present
    exact ⟨update, inside, by rw [System.release, getElem?_set_ne different.symm, present]⟩
  · intro wanted
    rw [queues]
    exact disciplined.distinct wanted
  · intro wanted read
    obtain ⟨empty, readers⟩ := disciplined.shared wanted read
    refine ⟨by rw [queues, empty], fun holder member => readers holder ?_⟩
    obtain ⟨rfl, left⟩ | ⟨_, before⟩ := mem_update Lock.holders member
    · exact mem_of_mem_eraseP left
    · exact before

theorem Disciplined.move (disciplined : Disciplined discipline system) (move : Move system task next) :
    Disciplined discipline next := by
  cases move with
  | grant found admitted => exact disciplined.grant found admitted
  | enqueue found refused absent => exact disciplined.enqueue found refused absent
  | release found => exact disciplined.release found

theorem Disciplined.waits (disciplined : Disciplined discipline system) {lock} (waits : system.Waits task lock) :
    discipline.shared lock = false ∧ ∀ other mode, (task, mode) ∈ (system.locks other).waiting → other = lock := by
  obtain ⟨mode, update, inside, found, member, _⟩ := waits
  constructor
  · rw [← Bool.not_eq_true]
    intro read
    rw [(disciplined.shared lock read).1] at member
    cases member
  · intro other asked also
    obtain ⟨_, _, present⟩ := disciplined.queued other task asked also
    cases found.symm.trans present
    rfl

theorem Disciplined.above (disciplined : Disciplined discipline system) {lock wanted} (waits : system.Waits task wanted)
    (exclusive : discipline.shared lock = false) (holds : system.Holds task lock) :
    discipline.rank lock < discipline.rank wanted := by
  obtain ⟨unshared, _⟩ := disciplined.waits waits
  obtain ⟨mode, update, inside, found, _⟩ := waits
  obtain ⟨held, ⟨order, _⟩, covers⟩ := disciplined.obeys task _ found
  rw [if_neg (by simp [unshared])] at order
  have counted : 0 < held.count lock := (guards_pos holds).trans_le (covers lock)
  exact order lock (count_pos_iff.mp counted) exclusive

theorem Disciplined.not_stalled (disciplined : Disciplined discipline system) (tasks : Finset Nat) :
    ¬ system.Stalled tasks := by
  rintro ⟨nonempty, stuck⟩
  obtain ⟨some, present⟩ := nonempty
  obtain ⟨lock, _⟩ := stuck some present
  have inhabited : Nonempty L := ⟨lock⟩
  choose! wanted waits rival using stuck
  obtain ⟨top, member, highest⟩ := tasks.exists_max_image (fun task => discipline.rank (wanted task)) ⟨some, present⟩
  -- The first place of the queue that one of the tasks has.
  have queued : ∃ place : Nat, ∃ task ∈ tasks, ∃ mode : Mode, (system.locks (wanted top)).waiting[place]? = Option.some (task, mode) := by
    obtain ⟨mode, _, _, _, entry, _⟩ := waits top member
    obtain ⟨place, found⟩ := getElem?_of_mem entry
    exact ⟨place, top, member, mode, found⟩
  classical
  obtain ⟨first, inside, mode, found⟩ := Nat.find_spec queued
  have earliest : ∀ place < Nat.find queued, ∀ task ∈ tasks, ∀ mode : Mode,
      (system.locks (wanted top)).waiting[place]? ≠ Option.some (task, mode) :=
    fun place before task belongs asked there => Nat.find_min queued before ⟨task, belongs, asked, there⟩
  have asks : wanted top = wanted first :=
    (disciplined.waits (waits first inside)).2 _ mode (mem_of_getElem? found)
  obtain ⟨other, belongs, _, holds | ⟨before, asked, after, split, ahead⟩⟩ := rival first inside
  · have above := disciplined.above (waits other belongs) (disciplined.waits (waits first inside)).1 holds
    rw [← asks] at above
    exact absurd (highest other belongs) (Nat.not_le.mpr above)
  · rw [← asks] at split
    obtain ⟨entry, early, rfl⟩ := mem_map.mp ahead
    obtain ⟨place, there⟩ := getElem?_of_mem early
    have bound : place < before.length := (List.getElem?_eq_some_iff.mp there).1
    have standing : (system.locks (wanted top)).waiting[place]? = Option.some (entry.1, entry.2) := by
      rw [split, getElem?_append_left bound, there]
    have own : (system.locks (wanted top)).waiting[before.length]? = Option.some (first, asked) := by
      rw [split]
      simp
    have modes : asked = mode := by
      obtain ⟨_, _, one⟩ := disciplined.queued _ first asked (mem_of_getElem? own)
      obtain ⟨_, _, two⟩ := disciplined.queued _ first mode (mem_of_getElem? found)
      cases one.symm.trans two
      rfl
    subst modes
    have place_eq : before.length = Nat.find queued := by
      have inRange : before.length < (system.locks (wanted top)).waiting.length := (List.getElem?_eq_some_iff.mp own).1
      exact (getElem?_inj inRange (disciplined.distinct (wanted top))).mp (own.trans found.symm)
    exact earliest place (place_eq ▸ bound) entry.1 belongs entry.2 standing

theorem disciplined_never_stalled {data codes turns} (good : discipline.good data)
    (obeys : ∀ code ∈ codes, code.Obeys discipline []) (ran : run System.step { data, codes } turns = some system)
    (tasks : Finset Nat) : ¬ system.Stalled tasks := by
  have disciplined : Disciplined discipline system :=
    run_preserves (Disciplined discipline) (fun kept stepped => kept.move (step_moves stepped)) (.init good obeys) ran
  exact disciplined.not_stalled tasks

theorem Code.Ascends.obeys {rank} {code : Code L σ} {held holding : List L} (ascends : code.Ascends rank held)
    (part : ∀ lock ∈ holding, lock ∈ held) (distinct : holding.Nodup) : code.Obeys { rank } holding := by
  induction code generalizing held holding with
  | done => trivial
  | acquire lock mode update inside ih =>
    refine ⟨?_, fun data _ => ⟨trivial, ?_⟩⟩
    · rw [if_neg (by simp)]
      exact fun other member _ => ascends.1 other (part other member)
    · refine ih data (ascends.2 data) (fun other member => ?_) (nodup_cons.mpr ⟨fun again => ?_, distinct⟩)
      · obtain rfl | member := mem_cons.mp member
        · exact mem_cons_self
        · exact mem_cons_of_mem _ (part other member)
      · exact Nat.lt_irrefl _ (ascends.1 lock (part lock again))
  | release lock rest ih =>
    refine ih ascends (fun other member => ?_) (distinct.erase lock)
    obtain ⟨different, before⟩ := (distinct.mem_erase_iff).mp member
    exact mem_filter.mpr ⟨part other before, decide_eq_true different⟩

theorem ascending_never_deadlocked {rank data codes turns} (ascends : ∀ code ∈ codes, code.Ascends rank [])
    (ran : run System.step { data, codes } turns = some system) (tasks : Finset Nat) : ¬ system.Deadlocked tasks := by
  intro deadlocked
  refine @disciplined_never_stalled _ _ _ system { rank } data codes turns trivial ?_ ran tasks deadlocked.stalled
  exact fun code member => (ascends code member).obeys (by simp) .nil

theorem step_free {lock mode update inside} (found : system.codes[task]? = some (.acquire lock mode update inside))
    (free : system.locks lock = {}) :
    system.step task = some
      { data := update system.data
        locks := Function.update system.locks lock { holders := [(task, mode)] }
        codes := system.codes.set task (inside system.data) } := by
  have admitted : (system.locks lock).admits (task, mode) = true := by
    rw [free]
    cases mode <;> rfl
  simp only [System.step, found, admitted, if_true, System.grant]
  rw [free]
  rfl

theorem take_free {lock mode update inside} (found : system.codes[task]? = some (.acquire lock mode update inside))
    (free : system.locks lock = {}) :
    ∃ next, system.step task = some next ∧ next.data = update system.data ∧
      next.codes = system.codes.set task (inside system.data) ∧
      next.locks = Function.update system.locks lock { holders := [(task, mode)] } :=
  ⟨_, step_free found free, rfl, rfl, rfl⟩

theorem step_release {lock mode rest} (found : system.codes[task]? = some (.release lock rest))
    (held : system.locks lock = { holders := [(task, mode)] }) :
    system.step task = some
      { data := system.data, locks := update system.locks lock {}, codes := system.codes.set task rest } := by
  simp [System.step, found, System.release, held]

theorem step_blocked {lock mode held update inside holder}
    (found : system.codes[task]? = some (.acquire lock mode update inside))
    (taken : system.locks lock = { holders := [(holder, held)] }) (conflict : mode = .write ∨ held = .write) :
    system.step task = some { system with
      locks := Function.update system.locks lock { holders := [(holder, held)], waiting := [(task, mode)] } } := by
  have refused : (system.locks lock).admits (task, mode) = false := by
    rw [taken]
    obtain rfl | rfl := conflict
    · rfl
    · cases mode <;> rfl
  have absent : (task, mode) ∉ (system.locks lock).waiting := by
    rw [taken]
    exact not_mem_nil
  simp only [System.step, found, refused, if_neg absent, System.enqueue, Bool.false_eq_true, if_false]
  rw [taken]
  rfl

theorem run_guard {lock mode update rest} (found : system.codes[task]? = some (.guard lock mode update rest))
    (free : system.locks lock = {}) :
    run System.step system [task, task] = some
      { data := update system.data, locks := system.locks, codes := system.codes.set task (rest system.data) } := by
  have inside : task < system.codes.length := (List.getElem?_eq_some_iff.mp found).1
  have released := @step_release L σ _
    { data := update system.data
      locks := Function.update system.locks lock { holders := [(task, mode)] }
      codes := system.codes.set task (.release lock (rest system.data)) } task lock mode (rest system.data)
    (getElem?_set_self inside) (update_self ..)
  simp only [run, step_free found free, bind_some, released, update_idem, set_set]
  rw [← free, update_eq_self]

theorem pass_section {lock mode update rest} (found : system.codes[task]? = some (.guard lock mode update rest))
    (free : system.locks lock = {}) :
    ∃ next, run System.step system [task, task] = some next ∧ next.data = update system.data ∧
      next.locks = system.locks ∧ next.codes = system.codes.set task (rest system.data) :=
  ⟨_, run_guard found free, rfl, rfl, rfl⟩

theorem pass_guard {lock mode update rest} (free : system.locks = fun _ => {})
    (found : system.codes[task]? = some (.guard lock mode update rest)) :
    ∃ next, run System.step system [task, task] = some next ∧ next.data = update system.data ∧
      next.locks = (fun _ => {}) ∧ next.codes = system.codes.set task (rest system.data) :=
  ⟨_, run_guard found (by rw [free]), rfl, free, rfl⟩

theorem crossed {task other lock held mode second update change inside rest} (different : task ≠ other)
    (apart : lock ≠ held) (asks : system.codes[task]? = some (.acquire lock .write update inside))
    (crosses : system.codes[other]? = some (.acquire held mode change rest))
    (taken : system.locks lock = { holders := [(other, second)] })
    (holding : system.locks held = { holders := [(task, .write)] }) :
    ∃ final, run System.step system [task, other] = some final ∧ final.Deadlocked {task, other} := by
  obtain ⟨queued, waited, codes, locks⟩ : ∃ queued, system.step task = some queued ∧ queued.codes = system.codes ∧
      queued.locks = Function.update system.locks lock { holders := [(other, second)], waiting := [(task, .write)] } :=
    ⟨_, step_blocked asks taken (.inl rfl), rfl, rfl⟩
  have still : queued.locks held = { holders := [(task, .write)] } := by
    rw [locks, update_of_ne apart.symm, holding]
  obtain ⟨final, blocked, sameCodes, sameLocks⟩ : ∃ final, queued.step other = some final ∧ final.codes = queued.codes ∧
      final.locks = Function.update queued.locks held { holders := [(task, .write)], waiting := [(other, mode)] } :=
    ⟨_, step_blocked (codes ▸ crosses) still (.inr rfl), rfl, rfl⟩
  refine ⟨final, by simp only [run, waited, blocked, bind_some], Finset.insert_nonempty _ _, fun stuck member => ?_⟩
  have atLock : final.locks lock = { holders := [(other, second)], waiting := [(task, .write)] } := by
    rw [sameLocks, update_of_ne apart, locks, update_self]
  have atHeld : final.locks held = { holders := [(task, .write)], waiting := [(other, mode)] } := by
    rw [sameLocks, update_self]
  rcases Finset.mem_insert.mp member with rfl | last
  · refine ⟨lock, ⟨.write, update, inside, by rw [sameCodes, codes, asks], ?_, ?_⟩, other, by simp, different.symm, second, ?_⟩
    · rw [atLock]
      exact mem_cons_self
    · rw [atLock]
      rfl
    · rw [atLock]
      exact mem_cons_self
  · cases Finset.mem_singleton.mp last
    refine ⟨held, ⟨mode, change, rest, by rw [sameCodes, codes, crosses], ?_, ?_⟩, task, by simp, different, .write, ?_⟩
    · rw [atHeld]
      exact mem_cons_self
    · rw [atHeld]
      cases mode <;> rfl
    · rw [atHeld]
      exact mem_cons_self

end

end EventBase.Foundations.NestedLocks
