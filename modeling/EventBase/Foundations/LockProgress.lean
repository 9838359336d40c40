import EventBase.Foundations.FairLock
import Mathlib.Data.List.TakeWhile

/-! When a request in the queue of a fair lock can still be served: exactly when
nobody who keeps the lock for good holds it or stands in front. -/

namespace EventBase.Foundations.FairLock
open List Option

section
variable {L : Type}

def Keeps (system : System L) (task : Nat) (lock : L) : Prop :=
  ∃ program, system.programs[task]? = some program ∧ .release lock ∉ program

def ahead (system : System L) (lock : L) (request : Nat × Mode) : List (Nat × Mode) :=
  (system.locks lock).waiting.takeWhile (fun waiter => waiter ≠ request)

structure Obstructed (system : System L) (lock : L) (request : Nat × Mode) : Prop where
  waiting : request ∈ (system.locks lock).waiting
  keeper : ∃ task mode, Keeps system task lock ∧
    ((task, mode) ∈ (system.locks lock).holders ∨ (task, mode) ∈ ahead system lock request)

theorem ahead_cons {system : System L} {lock request first} {rest : List (Nat × Mode)}
    (queue : (system.locks lock).waiting = first :: rest) (different : first ≠ request) :
    ahead system lock request = first :: rest.takeWhile (fun waiter => waiter ≠ request) := by
  rw [ahead, queue, takeWhile_cons_of_pos (by simpa using different)]

end

section
variable {L : Type} [DecidableEq L] {system next : System L} {lock : L} {task : Nat}

theorem Keeps.step {event} (keeps : Keeps system task lock) (stepped : system.step event = some next) :
    Keeps next task lock := by
  obtain ⟨program, found, never⟩ := keeps
  have advance {other : Nat} {action : Action L} {rest : Program L}
      (present : system.programs[other]? = some (action :: rest)) (programs : next.programs = system.programs.set other rest) :
      Keeps next task lock := by
    by_cases same : other = task
    · subst same
      rw [found] at present
      cases present
      refine ⟨rest, ?_, fun member => never (mem_cons_of_mem _ member)⟩
      rw [programs, List.getElem?_set_self (List.getElem?_eq_some_iff.mp found).1]
    · exact ⟨program, by rw [programs, getElem?_set_ne same, found], never⟩
  rcases step_cases stepped with ⟨spawned, -, rfl⟩ | ⟨other, _, _, rest, -, present, -, rfl⟩ |
    ⟨other, _, _, rest, -, present, -, rfl⟩ | ⟨other, _, rest, -, present, rfl⟩
  · exact ⟨program, getElem?_append_kept found _, never⟩
  · exact advance present rfl
  · exact ⟨program, found, never⟩
  · exact advance present rfl

variable {request : Nat × Mode}

private theorem Obstructed.grant {other mode rest} (obstructed : Obstructed system lock request)
    (writer : request.2 = .write) (admitted : (system.locks lock).admits (other, mode) = true)
    (keeps : ∀ task, Keeps system task lock → Keeps (system.grant other lock mode rest) task lock) :
    Obstructed (system.grant other lock mode rest) lock request := by
  obtain ⟨waiting, task, held, keeper, place⟩ := obstructed
  have locks : (system.grant other lock mode rest).locks lock =
      { holders := (other, mode) :: (system.locks lock).holders, waiting := (system.locks lock).waiting.tail } :=
    Function.update_self ..
  cases queue : (system.locks lock).waiting with
  | nil => simp [queue] at waiting
  | cons first others =>
    simp only [Lock.admits, queue, head?_cons, all_some, Bool.and_eq_true, decide_eq_true_eq] at admitted
    obtain ⟨free, rfl⟩ := admitted
    have different : (other, mode) ≠ request := by
      rintro rfl
      cases writer
      have nobody : (system.locks lock).holders = [] := by simpa [compatible] using free
      simp [ahead, queue, nobody] at place
    have behind : request ∈ others := by
      rw [queue] at waiting
      exact (mem_cons.mp waiting).resolve_left different.symm
    rw [ahead_cons queue different] at place
    refine ⟨by rw [locks, queue]; exact behind, task, held, keeps task keeper, ?_⟩
    simp only [ahead, locks, queue, tail_cons]
    rcases place with holding | front
    · exact .inl (mem_cons_of_mem _ holding)
    · rcases mem_cons.mp front with same | later
      · exact .inl (same ▸ mem_cons_self)
      · exact .inr later

theorem Obstructed.step {event} (obstructed : Obstructed system lock request) (writer : request.2 = .write)
    (stepped : system.step event = some next) : Obstructed next lock request := by
  have keeps : ∀ task, Keeps system task lock → Keeps next task lock := fun _ keeper => keeper.step stepped
  have framed (same : next.locks lock = system.locks lock) : Obstructed next lock request := by
    obtain ⟨waiting, task, held, keeper, place⟩ := obstructed
    refine ⟨by rwa [same], task, held, keeps task keeper, ?_⟩
    simpa only [ahead, same] using place
  rcases step_cases stepped with ⟨spawned, -, rfl⟩ | ⟨other, taken, mode, rest, -, -, admitted, rfl⟩ |
    ⟨other, asked, mode, rest, -, -, -, rfl⟩ | ⟨other, freed, rest, -, present, rfl⟩
  · exact framed rfl
  · by_cases same : lock = taken
    · subst same
      exact obstructed.grant writer admitted keeps
    · exact framed (Function.update_of_ne same ..)
  · by_cases same : lock = asked
    · subst same
      obtain ⟨waiting, task, held, keeper, place⟩ := obstructed
      have locks : (system.enqueue other lock mode).locks lock =
          { holders := (system.locks lock).holders, waiting := (system.locks lock).waiting ++ [(other, mode)] } :=
        Function.update_self ..
      refine ⟨by rw [locks]; exact mem_append_left _ waiting, task, held, keeps task keeper, ?_⟩
      have before : ((system.locks lock).waiting ++ [(other, mode)]).takeWhile (fun waiter => waiter ≠ request) =
          (system.locks lock).waiting.takeWhile (fun waiter => waiter ≠ request) := by
        rw [takeWhile_append]
        refine if_neg fun whole => ?_
        have all := takeWhile_eq_self_iff.mp (List.IsPrefix.eq_of_length ( takeWhile_prefix _) whole) request waiting
        simp at all
      simpa only [ahead, locks, before] using place
    · exact framed (Function.update_of_ne same ..)
  · by_cases same : lock = freed
    · subst same
      obtain ⟨waiting, task, held, keeper, place⟩ := obstructed
      have locks : (system.release other lock rest).locks lock =
          { holders := (system.locks lock).holders.filter (fun holder => holder.1 ≠ other),
            waiting := (system.locks lock).waiting } := Function.update_self ..
      have different : task ≠ other := by
        rintro rfl
        obtain ⟨program, found, never⟩ := keeper
        rw [present] at found
        cases found
        exact never mem_cons_self
      refine ⟨by rwa [locks], task, held, keeps task keeper, ?_⟩
      simp only [ahead, locks]
      rcases place with holding | front
      · exact .inl (mem_filter.mpr ⟨holding, by simpa using different⟩)
      · exact .inr front
    · exact framed (Function.update_of_ne same ..)

def Reaches (system final : System L) : Prop :=
  ∃ tasks : List Nat, run System.step system (tasks.map .advance) = some final

theorem Reaches.refl (system : System L) : Reaches system system := ⟨[], rfl⟩

theorem Reaches.cons {final} (task : Nat) (stepped : system.step (.advance task) = some next)
    (rest : Reaches next final) : Reaches system final := by
  obtain ⟨tasks, ran⟩ := rest
  exact ⟨task :: tasks, by simp only [map_cons, run, stepped, bind_some, ran]⟩

theorem Reaches.trans {final} (first : Reaches system next) (last : Reaches next final) :
    Reaches system final := by
  obtain ⟨before, ran⟩ := first
  obtain ⟨after, continued⟩ := last
  exact ⟨before ++ after, by rw [map_append, run_append, ran, bind_some, continued]⟩

private theorem drain (system : System L) (valid : Valid system)
    (lends : ∀ task mode, (task, mode) ∈ (system.locks lock).holders → ¬ Keeps system task lock) :
    ∃ final, Reaches system final ∧ Valid final ∧ (final.locks lock).holders = [] ∧
      (final.locks lock).waiting = (system.locks lock).waiting ∧
      ∀ task mode, (task, mode) ∈ (system.locks lock).waiting → final.programs[task]? = system.programs[task]? := by
  cases holders : (system.locks lock).holders with
  | nil => exact ⟨system, .refl system, valid, holders, rfl, fun _ _ _ => rfl⟩
  | cons first others =>
    obtain ⟨task, mode⟩ := first
    have holding : (task, mode) ∈ (system.locks lock).holders := holders ▸ mem_cons_self
    obtain ⟨rest, found⟩ : ∃ rest, system.programs[task]? = some (.release lock :: rest) := by
      rcases valid.holds lock task mode holding with done | releasing
      · exact absurd ⟨[], done, by simp⟩ (lends task mode holding)
      · exact releasing
    have stepped : system.step (.advance task) = some (system.release task lock rest) := by
      simp only [System.step, found]
    have locks : (system.release task lock rest).locks lock =
        { holders := (system.locks lock).holders.filter (fun holder => holder.1 ≠ task),
          waiting := (system.locks lock).waiting } := Function.update_self ..
    have kept {other : Nat} (different : other ≠ task) :
        (system.release task lock rest).programs[other]? = system.programs[other]? :=
      getElem?_set_ne different.symm
    have shorter : ((system.release task lock rest).locks lock).holders.length < (system.locks lock).holders.length := by
      rw [locks]
      exact length_filter_lt_length_iff_exists.mpr ⟨_, holding, by simp⟩
    obtain ⟨final, reached, still, free, queue, programs⟩ := drain (system.release task lock rest) (valid.release found) (by
      intro other held stays
      rw [locks, mem_filter] at stays
      rintro ⟨program, present, never⟩
      refine lends other held stays.1 ⟨program, ?_, never⟩
      rwa [kept (by simpa using stays.2)] at present)
    refine ⟨final, .cons task stepped reached, still, free, by rw [queue, locks], ?_⟩
    intro waiter held waiting
    obtain ⟨more, pending⟩ := valid.waits lock waiter held waiting
    have different : waiter ≠ task := by
      rintro rfl
      simp [found] at pending
    rw [programs waiter held (by rwa [locks]), kept different]
termination_by (system.locks lock).holders.length

theorem served (system : System L) (valid : Valid system) (waiting : request ∈ (system.locks lock).waiting)
    (free : ¬ Obstructed system lock request) :
    ∃ final, Reaches system final ∧ request ∈ (final.locks lock).holders := by
  have lends : ∀ task mode, (task, mode) ∈ (system.locks lock).holders ∨ (task, mode) ∈ ahead system lock request →
      ¬ Keeps system task lock := fun task mode place keeper => free ⟨waiting, task, mode, keeper, place⟩
  obtain ⟨drained, reached, valid', empty, same, programs⟩ :=
    drain system valid fun task mode holding => lends task mode (.inl holding)
  cases queue : (system.locks lock).waiting with
  | nil => simp [queue] at waiting
  | cons first others =>
    obtain ⟨task, mode⟩ := first
    have member : (task, mode) ∈ (system.locks lock).waiting := queue ▸ mem_cons_self
    obtain ⟨rest, found⟩ := valid.waits lock task mode member
    have pending : drained.programs[task]? = some (.acquire lock mode :: rest) := (programs task mode member).trans found
    have admitted : (drained.locks lock).admits (task, mode) = true := by
      cases mode <;> simp [Lock.admits, compatible, empty, same, queue]
    have stepped : drained.step (.advance task) = some (drained.grant task lock mode rest) := by
      simp only [System.step, pending, admitted, if_true]
    have locks : (drained.grant task lock mode rest).locks lock =
        { holders := [(task, mode)], waiting := others } := by
      simp only [System.grant, Function.update_self, empty, same, queue, tail_cons]
    have granted : Reaches system (drained.grant task lock mode rest) := reached.trans (.cons task stepped (.refl _))
    by_cases mine : (task, mode) = request
    · exact ⟨_, granted, by rw [locks, mine]; exact mem_singleton_self _⟩
    have behind : request ∈ others := by
      rw [queue] at waiting
      exact (mem_cons.mp waiting).resolve_left (Ne.symm mine)
    have next : (drained.grant task lock mode rest).programs[task]? = some rest :=
      List.getElem?_set_self (List.getElem?_eq_some_iff.mp pending).1
    have front := ahead_cons queue mine
    have shorter : (ahead (drained.grant task lock mode rest) lock request).length < (ahead system lock request).length := by
      rw [front]
      simp only [ahead, locks, length_cons, Nat.lt_succ_self]
    have unobstructed : ¬ Obstructed (drained.grant task lock mode rest) lock request := by
      rintro ⟨-, keeper, held, ⟨program, present, never⟩, place⟩
      by_cases same' : keeper = task
      · -- the task just served releases the lock next
        subst same'
        rw [next] at present
        cases present
        refine lends keeper mode (.inr (front ▸ mem_cons_self)) ⟨_, found, ?_⟩
        simpa using never
      · have later : (keeper, held) ∈ others.takeWhile (fun waiter => waiter ≠ request) := by
          simp only [locks, ahead, mem_singleton, Prod.mk.injEq, same', false_and, false_or] at place
          exact place
        have queued : (keeper, held) ∈ (system.locks lock).waiting :=
          queue ▸ mem_cons_of_mem _ ((takeWhile_sublist _).subset later)
        refine lends keeper held (.inr (front ▸ mem_cons_of_mem _ later)) ⟨program, ?_, never⟩
        rw [← programs keeper held queued, ← present]
        exact (getElem?_set_ne (Ne.symm same')).symm
    obtain ⟨final, continued, holding⟩ := served (drained.grant task lock mode rest) (valid'.grant pending admitted)
      (by rw [locks]; exact behind) unobstructed
    exact ⟨final, granted.trans continued, holding⟩
termination_by (ahead system lock request).length

end

end EventBase.Foundations.FairLock
