import EventBase.Foundations.Run
import Mathlib.Data.List.Nodup
import Mathlib.Logic.Function.Basic

/-! Tasks that take turns on fair read-write locks. A request that cannot be
served at once joins the lock's queue and nobody overtakes it; a writer needs the
lock to itself. -/

namespace EventBase.Foundations.FairLock
open List Function

inductive Mode where
  | read
  | write
  deriving DecidableEq, Repr

inductive Action (L : Type) where
  | acquire (lock : L) (mode : Mode)
  | release (lock : L)
  deriving DecidableEq, Repr

abbrev Program (L : Type) := List (Action L)

/-- Who holds a lock and who waits for it, longest first. -/
structure Lock where
  holders : List (Nat × Mode) := []
  waiting : List (Nat × Mode) := []
  deriving DecidableEq, Repr

instance (request : Nat × Mode) (lock : Lock) : Decidable (request ∈ lock.waiting) :=
  inferInstanceAs (Decidable (request ∈ (lock.waiting : List (Nat × Mode))))

/-- Tasks are numbered in the order of their creation; `programs` holds what each
has left to do. -/
structure System (L : Type) where
  locks : L → Lock := fun _ => {}
  programs : List (Program L) := []

inductive Event (L : Type) where
  | spawn (program : Program L)
  | advance (task : Nat)

def compatible (holders : List (Nat × Mode)) : Mode → Bool
  | .read => holders.all (fun holder => holder.2 = .read)
  | .write => holders.isEmpty

/-- Free for this request: compatible with the holders, and nobody waits but the
requester at the head. -/
def Lock.admits (lock : Lock) (request : Nat × Mode) : Bool :=
  compatible lock.holders request.2 && lock.waiting.head?.all (fun first => first = request)

theorem admits_queue {lock : Lock} {request : Nat × Mode} (admitted : lock.admits request = true) :
    compatible lock.holders request.2 = true ∧ (lock.waiting = [] ∨ lock.waiting = request :: lock.waiting.tail) := by
  simp only [Lock.admits, Bool.and_eq_true] at admitted
  refine ⟨admitted.1, ?_⟩
  cases queue : lock.waiting with
  | nil => exact .inl rfl
  | cons first rest =>
    right
    have same : first = request := by simpa [queue] using admitted.2
    rw [same, tail_cons]

theorem admits_leaves {lock : Lock} {request : Nat × Mode} (admitted : lock.admits request = true)
    (distinct : lock.waiting.Nodup) : request ∉ lock.waiting.tail := by
  intro member
  obtain empty | head := (admits_queue admitted).2
  · rw [empty] at member
    cases member
  · rw [head] at distinct
    exact (nodup_cons.mp distinct).1 member

section
variable {L α : Type} [DecidableEq L] {locks : L → Lock} {lock : L} {new : Lock}

theorem update_kept (field : Lock → α) (same : field new = field (locks lock)) (other : L) :
    field (update locks lock new other) = field (locks other) := by
  by_cases here : other = lock
  · subst here
    rw [update_self, same]
  · rw [update_of_ne here]

theorem mem_update (field : Lock → List α) {other : L} {entry : α}
    (member : entry ∈ field (update locks lock new other)) :
    (other = lock ∧ entry ∈ field new) ∨ (other ≠ lock ∧ entry ∈ field (locks other)) := by
  by_cases here : other = lock
  · subst here
    rw [update_self] at member
    exact .inl ⟨rfl, member⟩
  · rw [update_of_ne here] at member
    exact .inr ⟨here, member⟩

theorem update_distinct (distinct : ∀ other, (locks other).waiting.Nodup) (here : new.waiting.Nodup) :
    ∀ other, (update locks lock new other).waiting.Nodup :=
  (forall_update_iff locks fun _ lock => lock.waiting.Nodup).mpr ⟨here, fun other _ => distinct other⟩

end

theorem nodup_joined {α : Type} {entries : List α} {new : α} (distinct : entries.Nodup) (fresh : new ∉ entries) :
    (entries ++ [new]).Nodup := by
  rw [← concat_eq_append]
  exact List.Nodup.concat fresh distinct

section
variable {L : Type}

/-- A program without nesting: guarded sections one after the other, and at most
one guard at the end that is never given back. -/
inductive Flat : Program L → Prop
  | nil : Flat []
  | guarded (lock : L) (mode : Mode) {rest : Program L} (flat : Flat rest) :
      Flat (.acquire lock mode :: .release lock :: rest)
  | hold (lock : L) (mode : Mode) : Flat [.acquire lock mode]

/-- Waiting tasks are about to acquire, holders are about to release or done. -/
structure Valid (system : System L) : Prop where
  waits : ∀ lock task mode, (task, mode) ∈ (system.locks lock).waiting →
    ∃ rest, system.programs[task]? = some (.acquire lock mode :: rest)
  holds : ∀ lock task mode, (task, mode) ∈ (system.locks lock).holders →
    system.programs[task]? = some [] ∨ ∃ rest, system.programs[task]? = some (.release lock :: rest)
  flat : ∀ (task : Nat) (program : Program L), system.programs[task]? = some program →
    Flat program ∨ ∃ lock rest, program = .release lock :: rest ∧ Flat rest
  queue : ∀ lock, (system.locks lock).waiting.Nodup

theorem Flat.after {lock : L} {mode : Mode} {rest : Program L} (flat : Flat (.acquire lock mode :: rest)) :
    rest = [] ∨ ∃ more, rest = .release lock :: more ∧ Flat more := by
  cases flat with
  | guarded _ _ more => exact .inr ⟨_, rfl, more⟩
  | hold => exact .inl rfl

namespace Valid
variable {system : System L} (valid : Valid system)
include valid

theorem acquiring {task : Nat} {lock : L} {mode : Mode} {rest : Program L}
    (found : system.programs[task]? = some (.acquire lock mode :: rest)) :
    rest = [] ∨ ∃ more, rest = .release lock :: more ∧ Flat more := by
  rcases valid.flat task _ found with flat | ⟨other, more, same, -⟩
  · exact flat.after
  · cases same

theorem releasing {task : Nat} {lock : L} {rest : Program L}
    (found : system.programs[task]? = some (.release lock :: rest)) : Flat rest := by
  rcases valid.flat task _ found with flat | ⟨other, more, same, flat⟩
  · cases flat
  · cases same
    exact flat

theorem bare {task : Nat} {lock other : L} {mode held : Mode} {rest : Program L}
    (found : system.programs[task]? = some (.acquire lock mode :: rest)) :
    (task, held) ∉ (system.locks other).holders := by
  intro holding
  rcases valid.holds other task held holding with done | ⟨more, release⟩
  · simp [done] at found
  · simp [release] at found

theorem spawn {program : Program L} (flat : Flat program) :
    Valid { system with programs := system.programs ++ [program] } := by
  refine ⟨?_, ?_, ?_, valid.queue⟩
  · intro lock task mode waiting
    obtain ⟨rest, found⟩ := valid.waits lock task mode waiting
    exact ⟨rest, getElem?_append_kept found _⟩
  · intro lock task mode holding
    rcases valid.holds lock task mode holding with done | ⟨rest, found⟩
    · exact .inl (getElem?_append_kept done _)
    · exact .inr ⟨rest, getElem?_append_kept found _⟩
  · intro task other found
    rw [getElem?_append] at found
    split at found
    · exact valid.flat task other found
    · have same : other = program := by simpa using mem_of_getElem? found
      exact .inl (same ▸ flat)

end Valid

end

section
variable {L : Type} [DecidableEq L]

namespace System

def grant (system : System L) (task : Nat) (lock : L) (mode : Mode) (rest : Program L) : System L where
  locks := update system.locks lock
    { holders := (task, mode) :: (system.locks lock).holders, waiting := (system.locks lock).waiting.tail }
  programs := system.programs.set task rest

def enqueue (system : System L) (task : Nat) (lock : L) (mode : Mode) : System L where
  locks := update system.locks lock
    { holders := (system.locks lock).holders, waiting := (system.locks lock).waiting ++ [(task, mode)] }
  programs := system.programs

def release (system : System L) (task : Nat) (lock : L) (rest : Program L) : System L where
  locks := update system.locks lock
    { holders := (system.locks lock).holders.filter (fun holder => holder.1 ≠ task),
      waiting := (system.locks lock).waiting }
  programs := system.programs.set task rest

def step (system : System L) : Event L → Option (System L)
  | .spawn program => some { system with programs := system.programs ++ [program] }
  | .advance task =>
    match system.programs[task]? with
    | some (.acquire lock mode :: rest) =>
      if (system.locks lock).admits (task, mode) then some (system.grant task lock mode rest)
      else if (task, mode) ∈ (system.locks lock).waiting then none
      else some (system.enqueue task lock mode)
    | some (.release lock :: rest) => some (system.release task lock rest)
    | _ => none

end System

theorem step_cases {system next : System L} {event : Event L} (stepped : system.step event = some next) :
    (∃ program, event = .spawn program ∧ next = { system with programs := system.programs ++ [program] }) ∨
      (∃ task lock mode rest, event = .advance task ∧ system.programs[task]? = some (.acquire lock mode :: rest) ∧
        (system.locks lock).admits (task, mode) = true ∧ next = system.grant task lock mode rest) ∨
      (∃ task lock mode rest, event = .advance task ∧ system.programs[task]? = some (.acquire lock mode :: rest) ∧
        (task, mode) ∉ (system.locks lock).waiting ∧ next = system.enqueue task lock mode) ∨
      (∃ task lock rest, event = .advance task ∧ system.programs[task]? = some (.release lock :: rest) ∧
        next = system.release task lock rest) := by
  cases event with
  | spawn program => exact .inl ⟨program, rfl, (Option.some.inj stepped).symm⟩
  | advance task =>
    refine .inr ?_
    simp only [System.step] at stepped
    split at stepped
    · next lock mode rest found =>
      split at stepped
      · next admitted => exact .inl ⟨task, lock, mode, rest, rfl, found, admitted, (Option.some.inj stepped).symm⟩
      · split at stepped
        · cases stepped
        · next fresh => exact .inr (.inl ⟨task, lock, mode, rest, rfl, found, fresh, (Option.some.inj stepped).symm⟩)
    · next lock rest found => exact .inr (.inr ⟨task, lock, rest, rfl, found, (Option.some.inj stepped).symm⟩)
    · cases stepped

namespace Valid
variable {system : System L} (valid : Valid system)
include valid

theorem grant {task : Nat} {lock : L} {mode : Mode} {rest : Program L}
    (found : system.programs[task]? = some (.acquire lock mode :: rest))
    (admitted : (system.locks lock).admits (task, mode) = true) : Valid (system.grant task lock mode rest) := by
  have inside : task < system.programs.length := (List.getElem?_eq_some_iff.mp found).1
  have next : (system.programs.set task rest)[task]? = some rest := getElem?_set_self inside
  have kept {other : Nat} (different : other ≠ task) :
      (system.programs.set task rest)[other]? = system.programs[other]? := getElem?_set_ne different.symm
  have queues {other : L} {entry : Nat × Mode} (waiting : entry ∈ ((system.grant task lock mode rest).locks other).waiting) :
      entry ∈ (system.locks other).waiting := by
    obtain ⟨rfl, before⟩ | ⟨_, before⟩ := mem_update Lock.waiting waiting
    · exact mem_of_mem_tail before
    · exact before
  -- a waiting entry of the task itself is the one at the head, which leaves the queue
  have left (other : L) (held : Mode) : (task, held) ∉ ((system.grant task lock mode rest).locks other).waiting := by
    intro waiting
    obtain ⟨more, pending⟩ := valid.waits other task held (queues waiting)
    cases found.symm.trans pending
    simp only [System.grant, update_self] at waiting
    exact admits_leaves admitted (valid.queue lock) waiting
  refine ⟨?_, ?_, ?_, ?_⟩
  · intro other waiter held waiting
    have different : waiter ≠ task := by
      rintro rfl
      exact left other held waiting
    obtain ⟨more, pending⟩ := valid.waits other waiter held (queues waiting)
    exact ⟨more, (kept different).trans pending⟩
  · intro other holder held holding
    obtain ⟨rfl, new⟩ | ⟨elsewhere, before⟩ := mem_update Lock.holders holding
    · obtain same | before := mem_cons.mp new
      · cases same
        rcases valid.acquiring found with rfl | ⟨more, rfl, -⟩
        · exact .inl next
        · exact .inr ⟨more, next⟩
      · rw [System.grant, kept fun same => valid.bare found (same ▸ before)]
        exact valid.holds other holder held before
    · rw [System.grant, kept fun same => valid.bare found (same ▸ before)]
      exact valid.holds other holder held before
  · intro other program present
    obtain ⟨rfl, rfl⟩ | ⟨_, before⟩ := getElem?_set_cases present
    · rcases valid.acquiring found with rfl | ⟨more, rfl, flat⟩
      · exact .inl .nil
      · exact .inr ⟨lock, more, rfl, flat⟩
    · exact valid.flat other program before
  · exact update_distinct valid.queue ((valid.queue lock).sublist (tail_sublist _))

theorem enqueue {task : Nat} {lock : L} {mode : Mode} {rest : Program L}
    (found : system.programs[task]? = some (.acquire lock mode :: rest))
    (fresh : (task, mode) ∉ (system.locks lock).waiting) : Valid (system.enqueue task lock mode) := by
  refine ⟨?_, ?_, valid.flat, update_distinct valid.queue (nodup_joined (valid.queue lock) fresh)⟩
  · intro other waiter held waiting
    obtain ⟨rfl, there⟩ | ⟨_, before⟩ := mem_update Lock.waiting waiting
    · obtain before | new := mem_append.mp there
      · exact valid.waits other waiter held before
      · cases mem_singleton.mp new
        exact ⟨rest, found⟩
    · exact valid.waits other waiter held before
  · intro other holder held holding
    have same : ((system.enqueue task lock mode).locks other).holders = (system.locks other).holders :=
      update_kept Lock.holders (by rfl) other
    exact valid.holds other holder held (same ▸ holding)

theorem release {task : Nat} {lock : L} {rest : Program L}
    (found : system.programs[task]? = some (.release lock :: rest)) : Valid (system.release task lock rest) := by
  have inside : task < system.programs.length := (List.getElem?_eq_some_iff.mp found).1
  have kept {other : Nat} (different : other ≠ task) :
      (system.programs.set task rest)[other]? = system.programs[other]? := getElem?_set_ne different.symm
  have queues (other : L) : ((system.release task lock rest).locks other).waiting = (system.locks other).waiting :=
    update_kept Lock.waiting (by rfl) other
  refine ⟨?_, ?_, ?_, fun other => ?_⟩
  · intro other waiter held waiting
    rw [queues] at waiting
    obtain ⟨more, pending⟩ := valid.waits other waiter held waiting
    have different : waiter ≠ task := by
      rintro rfl
      simp [found] at pending
    exact ⟨more, (kept different).trans pending⟩
  · intro other holder held holding
    obtain ⟨rfl, there⟩ | ⟨elsewhere, before⟩ := mem_update Lock.holders holding
    · obtain ⟨before, different⟩ := mem_filter.mp there
      rw [System.release, kept (by simpa using different)]
      exact valid.holds other holder held before
    · have different : holder ≠ task := by
        rintro rfl
        rcases valid.holds other _ held before with done | ⟨more, present⟩
        · simp [found] at done
        · simp [found, Ne.symm elsewhere] at present
      rw [System.release, kept different]
      exact valid.holds other holder held before
  · intro other program present
    obtain ⟨rfl, rfl⟩ | ⟨_, before⟩ := getElem?_set_cases present
    · exact .inl (valid.releasing found)
    · exact valid.flat other program before
  · rw [queues]
    exact valid.queue other

end Valid

theorem Valid.step {system next : System L} {event : Event L} (valid : Valid system)
    (flat : ∀ program, event = .spawn program → Flat program) (stepped : system.step event = some next) :
    Valid next := by
  rcases step_cases stepped with ⟨program, same, rfl⟩ | ⟨task, lock, mode, rest, -, found, admitted, rfl⟩ |
    ⟨task, lock, mode, rest, -, found, fresh, rfl⟩ | ⟨task, lock, rest, -, found, rfl⟩
  · exact valid.spawn (flat program same)
  · exact valid.grant found admitted
  · exact valid.enqueue found fresh
  · exact valid.release found

end

end EventBase.Foundations.FairLock
