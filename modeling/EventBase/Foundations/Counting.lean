import Mathlib
import EventBase.Foundations.Run

/-! Counting the members of a list with a property, sums over a list of parties,
and the order in which the entries of a log were appended. -/

namespace EventBase.Foundations
open List

section
variable {α : Type} {property : α → Bool}

theorem countP_eraseIdx {list : List α} {index : Nat} {item : α} (found : list[index]? = some item) :
    (list.eraseIdx index).countP property + [item].countP property = list.countP property := by
  obtain ⟨inside, rfl⟩ := List.getElem?_eq_some_iff.mp found
  rw [← (List.getElem_cons_eraseIdx_perm inside).countP_eq property, List.countP_singleton, List.countP_cons]

theorem countP_eraseP_self (list : List α) : (list.eraseP property).countP property = list.countP property - 1 := by
  induction list with
  | nil => rfl
  | cons first rest ih =>
    by_cases holds : property first = true
    · simp [eraseP_cons_of_pos, holds]
    · simpa [eraseP_cons_of_neg, holds] using ih

theorem sum_map_set {M : Type} [AddCommMonoid M] {weigh : α → M} {list : List α} {index : Nat} {old : α} (new : α)
    (found : list[index]? = some old) :
    ((list.set index new).map weigh).sum + weigh old = (list.map weigh).sum + weigh new := by
  induction list generalizing index with
  | nil => simp at found
  | cons first rest ih =>
    cases index with
    | zero =>
      cases found
      simp only [set_cons_zero, map_cons, sum_cons]
      abel
    | succ index =>
      have later := ih found
      simp only [set_cons_succ, map_cons, sum_cons, add_assoc, later]

end

section
variable {α : Type} {property : α → Bool}

theorem eq_of_countP_le_one {list : List α} (single : list.countP property ≤ 1) {first second : α}
    (left : first ∈ list) (right : second ∈ list) (holds : property first = true) (also : property second = true) :
    first = second := by
  rw [countP_eq_length_filter] at single
  have left : first ∈ list.filter property := mem_filter.mpr ⟨left, holds⟩
  have right : second ∈ list.filter property := mem_filter.mpr ⟨right, also⟩
  match found : list.filter property, single with
  | [], _ => simp [found] at left
  | [only], _ =>
    rw [found, mem_singleton] at left right
    exact left.trans right.symm

end

section
variable {α : Type} {holds : List α → Prop} {entry : α} {log : List α}

/-- The entry was appended to a log that already satisfied the property. -/
def After (holds : List α → Prop) (entry : α) (log : List α) : Prop :=
  ∃ before after, log = before ++ entry :: after ∧ holds before

theorem After.of_append {entries : List α} (occurs : After holds entry (log ++ entries)) (absent : entry ∉ entries) :
    After holds entry log := by
  obtain ⟨before, after, split, held⟩ := occurs
  obtain ⟨middle, _, rfl⟩ | ⟨middle, rfl, rest⟩ := append_eq_append_iff.mp split
  · exact absurd (mem_append_right _ mem_cons_self) absent
  · cases middle with
    | nil =>
      have rest : entry :: after = entries := rest
      exact absurd (rest ▸ mem_cons_self) absent
    | cons first middle =>
      cases rest
      exact ⟨before, middle, rfl, held⟩

theorem After.concat {newest : α} (occurs : After holds entry (log ++ [newest])) :
    After holds entry log ∨ (entry = newest ∧ holds log) := by
  obtain ⟨before, after, split, held⟩ := occurs
  obtain ⟨rfl, rfl, -⟩ | ⟨rest, -, rfl⟩ := concat_split_cases split
  · exact .inr ⟨rfl, held⟩
  · exact .inl ⟨before, rest, rfl, held⟩

theorem After.lasting (lasts : ∀ log entries, holds log → holds (log ++ entries)) (occurs : After holds entry log) :
    holds log := by
  obtain ⟨before, after, rfl, held⟩ := occurs
  exact lasts before _ held

theorem After.append (entries : List α) (occurs : After holds entry log) : After holds entry (log ++ entries) := by
  obtain ⟨before, after, rfl, held⟩ := occurs
  exact ⟨before, after ++ entries, by simp, held⟩

end

end EventBase.Foundations
