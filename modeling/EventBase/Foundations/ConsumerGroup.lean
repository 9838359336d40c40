import Mathlib.Data.List.Basic

/-! An append-only stream with one consumer group: entries are known by their
position, a cursor separates the entries already handed out from the others, and
an entry handed out is pending until it is acknowledged. -/

namespace EventBase.Foundations
open List Option

/-- `start` is where the group was created; entries before it are never handed out. -/
structure Group where
  start : Nat
  cursor : Nat
  pending : List Nat
  deriving DecidableEq

structure Stream (α : Type) where
  entries : List α
  group : Option Group

namespace Stream
variable {α : Type}

def empty : Stream α := ⟨[], none⟩

def add (stream : Stream α) (entry : α) : Stream α := { stream with entries := stream.entries ++ [entry] }

def createGroup (stream : Stream α) (fromEnd : Bool) : Stream α :=
  match stream.group with
  | some _ => stream
  | none =>
    let start := if fromEnd then stream.entries.length else 0
    { stream with group := some ⟨start, start, []⟩ }

def next (stream : Stream α) (group : Group) (count : Nat) : List (Nat × α) :=
  ((stream.entries.drop group.cursor).take count).zipIdx group.cursor |>.map Prod.swap

def readGroup (stream : Stream α) (count : Nat) : Option (List (Nat × α) × Stream α) :=
  stream.group.map fun group =>
    let read := stream.next group count
    (read, { stream with
      group := some { group with cursor := group.cursor + read.length, pending := group.pending ++ read.map Prod.fst } })

def ack (stream : Stream α) (id : Nat) : Stream α :=
  { stream with group := stream.group.map fun group => { group with pending := group.pending.filter (· ≠ id) } }

def isPending (stream : Stream α) (id : Nat) : Prop := ∃ group, stream.group = some group ∧ id ∈ group.pending

instance (stream : Stream α) (id : Nat) : Decidable (stream.isPending id) :=
  match found : stream.group with
  | none => isFalse (by simp [isPending, found])
  | some group => decidable_of_iff (id ∈ group.pending) (by simp [isPending, found])

def isUnread (stream : Stream α) (id : Nat) : Prop :=
  ∀ group, stream.group = some group → id < group.start ∨ group.cursor ≤ id

def holds (stream : Stream α) (id : Nat) : Prop := stream.isUnread id ∨ stream.isPending id

def Bounded (stream : Stream α) : Prop := ∀ group, stream.group = some group → group.cursor ≤ stream.entries.length

section
variable {stream : Stream α} {id : Nat}

theorem holds_add (entry : α) (held : stream.holds id) : (stream.add entry).holds id := held

theorem bounded_add (entry : α) (bounded : stream.Bounded) : (stream.add entry).Bounded := by
  intro group found
  have inside := bounded group found
  simp only [add, length_append]
  omega

theorem holds_added (bounded : stream.Bounded) (entry : α) : (stream.add entry).holds stream.entries.length :=
  .inl fun group found => .inr (bounded group found)

theorem entries_createGroup (fromEnd : Bool) : (stream.createGroup fromEnd).entries = stream.entries := by
  unfold createGroup
  split <;> rfl

theorem holds_createGroup (fromEnd : Bool) (inside : id < stream.entries.length) (held : stream.holds id) :
    (stream.createGroup fromEnd).holds id := by
  unfold createGroup
  split
  · exact held
  · left
    rintro group ⟨⟩
    cases fromEnd with
    | true => exact .inl inside
    | false => exact .inr (Nat.zero_le _)

theorem bounded_createGroup (fromEnd : Bool) (bounded : stream.Bounded) : (stream.createGroup fromEnd).Bounded := by
  unfold createGroup
  split
  · exact bounded
  · rintro group ⟨⟩
    cases fromEnd with
    | true => exact Nat.le_refl _
    | false => exact Nat.zero_le _

theorem mem_next {group count position entry} (member : (position, entry) ∈ stream.next group count) :
    stream.entries[position]? = some entry ∧ group.cursor ≤ position := by
  simp only [next, List.mem_map, Prod.exists, Prod.swap_prod_mk, Prod.mk.injEq] at member
  obtain ⟨found, place, listed, rfl, rfl⟩ := member
  obtain ⟨after, taken⟩ := mem_zipIdx_iff_le_and_getElem?_sub.mp listed
  rw [getElem?_take] at taken
  split at taken
  · rw [getElem?_drop, Nat.add_sub_cancel' after] at taken
    exact ⟨taken, after⟩
  · cases taken

theorem fst_mem_next {group count position} (from_cursor : group.cursor ≤ position)
    (below : position < group.cursor + (stream.next group count).length) :
    position ∈ (stream.next group count).map Prod.fst := by
  simp only [next, length_map, length_zipIdx] at below
  simp only [next, List.map_map, List.mem_map, Function.comp_apply, Prod.fst_swap, Prod.exists]
  have inside : position - group.cursor < ((stream.entries.drop group.cursor).take count).length := by omega
  refine ⟨_, position, List.mem_zipIdx_iff_le_and_getElem?_sub.mpr ⟨from_cursor, List.getElem?_eq_getElem inside⟩, rfl⟩

theorem readGroup_spec {count read after} (ran : stream.readGroup count = some (read, after))
    (bounded : stream.Bounded) :
    after.entries = stream.entries ∧ after.Bounded ∧ (∀ id, stream.holds id → after.holds id) ∧
      ∀ position entry, (position, entry) ∈ read → stream.entries[position]? = some entry := by
  obtain ⟨group, found, same⟩ := map_eq_some_iff.mp ran
  cases same
  refine ⟨rfl, ?_, ?_, fun position entry member => (mem_next member).1⟩
  · rintro later ⟨⟩
    have inside := bounded group found
    simp only [next, length_map, length_zipIdx, length_take, length_drop]
    omega
  · rintro id (unread | ⟨same, claimed, pending⟩)
    · obtain before | from_cursor := unread group found
      · exact .inl fun later same => by cases same; exact .inl before
      · by_cases below : id < group.cursor + (stream.next group count).length
        · exact .inr ⟨_, rfl, mem_append_right _ (fst_mem_next from_cursor below)⟩
        · exact .inl fun later same => by cases same; exact .inr (Nat.le_of_not_lt below)
    · cases found.symm.trans claimed
      exact .inr ⟨_, rfl, mem_append_left _ pending⟩

theorem holds_ack {other} (different : id ≠ other) (held : stream.holds id) : (stream.ack other).holds id := by
  obtain unread | ⟨group, found, pending⟩ := held
  · left
    intro group found
    obtain ⟨before, same, rfl⟩ := map_eq_some_iff.mp found
    exact unread before same
  · right
    have kept : id ∈ group.pending.filter (· ≠ other) := mem_filter.mpr ⟨pending, by simpa using different⟩
    exact ⟨{ group with pending := group.pending.filter (· ≠ other) }, by rw [ack, found]; rfl, kept⟩

theorem bounded_ack (other : Nat) (bounded : stream.Bounded) : (stream.ack other).Bounded := by
  intro group found
  obtain ⟨before, same, rfl⟩ := map_eq_some_iff.mp found
  exact bounded before same

end
end Stream

end EventBase.Foundations
