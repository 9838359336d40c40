import Mathlib.Data.List.AList
import Mathlib.Logic.Equiv.Basic

/-! Folds and filters over association lists without duplicate keys. -/

namespace EventBase.Foundations
open List AList

variable {α β γ : Type} [DecidableEq α] {table : AList fun _ : α => β} {key : α}

theorem lookup_insert_eq (table : AList fun _ : α => β) (key : α) (value : β) (other : α) :
    (table.insert key value).lookup other = if other = key then some value else table.lookup other := by
  split
  · next same =>
    subst same
    exact lookup_insert table
  · next different => exact lookup_insert_ne different

theorem lookup_erase_eq (table : AList fun _ : α => β) (key other : α) :
    (table.erase key).lookup other = if other = key then none else table.lookup other := by
  split
  · next same =>
    subst same
    exact lookup_erase other table
  · next different => exact lookup_erase_ne different

theorem lookup_foldl_erase (keys : List α) (table : AList (fun _ : α => β)) (key : α) :
    (keys.foldl (fun table key => table.erase key) table).lookup key = if key ∈ keys then none else table.lookup key := by
  induction keys generalizing table with
  | nil => simp
  | cons first rest ih =>
    rw [foldl_cons, ih, lookup_erase_eq]
    by_cases same : key = first <;> simp [same]

theorem lookup_insert_cases {other value found}
    (present : (table.insert key value).lookup other = some found) :
    (other = key ∧ found = value) ∨ (other ≠ key ∧ table.lookup other = some found) := by
  rw [lookup_insert_eq] at present
  split at present
  · next same => exact .inl ⟨same, (Option.some.inj present).symm⟩
  · next different => exact .inr ⟨different, present⟩

theorem lookup_erase_cases {other found}
    (present : (table.erase key).lookup other = some found) : other ≠ key ∧ table.lookup other = some found := by
  rwa [lookup_erase_eq, Option.ite_none_left_eq_some] at present

theorem lookup_foldl_insert {pairs : List (α × β)} {found}
    (present : (pairs.foldl (fun table pair => table.insert pair.1 pair.2) table).lookup key = some found) :
    table.lookup key = some found ∨ found ∈ pairs.map Prod.snd := by
  induction pairs generalizing table with
  | nil => exact .inl present
  | cons first rest ih =>
    obtain earlier | member := ih present
    · obtain ⟨_, rfl⟩ | ⟨_, kept⟩ := lookup_insert_cases earlier
      · exact .inr mem_cons_self
      · exact .inl kept
    · exact .inr (mem_cons_of_mem _ member)

theorem exists_relabel {left right : Nat → α} (distinct : left.Injective)
    (unused : ∀ n, left n ∉ table) (distinct' : right.Injective) (unused' : ∀ n, right n ∉ table) (count : Nat) :
    ∃ relabel : Equiv.Perm α, (∀ key ∈ table, relabel key = key) ∧ ∀ n < count, relabel (left n) = right n := by
  induction count with
  | zero => exact ⟨Equiv.refl α, fun _ _ => rfl, fun _ absent => absurd absent (Nat.not_lt_zero _)⟩
  | succ count ih =>
    obtain ⟨relabel, kept, renamed⟩ := ih
    refine ⟨relabel.trans (Equiv.swap (relabel (left count)) (right count)), ?_, ?_⟩
    · intro key present
      rw [Equiv.trans_apply, Equiv.swap_apply_of_ne_of_ne, kept key present]
      · intro same
        exact unused count (relabel.injective same ▸ present)
      · intro same
        exact unused' count (same ▸ (kept key present).symm ▸ present)
    · intro n bound
      obtain lower | rfl := Nat.lt_succ_iff_lt_or_eq.mp bound
      · rw [Equiv.trans_apply, Equiv.swap_apply_of_ne_of_ne, renamed n lower]
        · intro same
          exact Nat.ne_of_lt lower (distinct (relabel.injective same))
        · intro same
          exact Nat.ne_of_lt lower (distinct' ((renamed n lower).symm.trans same))
      · rw [Equiv.trans_apply, Equiv.swap_apply_left]

def mapValues (f : β → γ) (table : AList (fun _ : α => β)) : AList (fun _ : α => γ) where
  entries := table.entries.map fun entry => ⟨entry.1, f entry.2⟩
  nodupKeys := by
    have keys : (table.entries.map fun entry => (⟨entry.1, f entry.2⟩ : Sigma fun _ : α => γ)).map Sigma.fst =
        table.entries.map Sigma.fst := by simp [Function.comp_def]
    exact (congrArg List.Nodup keys).mpr table.keys_nodup

@[simp] theorem lookup_mapValues (f : β → γ) (table : AList (fun _ : α => β)) (key : α) :
    (mapValues f table).lookup key = (table.lookup key).map f :=
  dlookup_map₂ (f := fun _ => f) key

theorem kerase_map (f : β → γ) (entries : List (Sigma fun _ : α => β)) (key : α) :
    (entries.map fun entry => (⟨entry.1, f entry.2⟩ : Sigma fun _ : α => γ)).kerase key =
      (entries.kerase key).map fun entry => ⟨entry.1, f entry.2⟩ := by
  rw [List.kerase, List.kerase, eraseP_map]
  rfl

@[simp] theorem mapValues_insert (f : β → γ) (table : AList (fun _ : α => β)) (key : α) (value : β) :
    mapValues f (table.insert key value) = (mapValues f table).insert key (f value) := by
  refine AList.ext ?_
  rw [entries_insert]
  exact congrArg (List.cons _) (kerase_map f table.entries key).symm

@[simp] theorem mapValues_erase (f : β → γ) (table : AList (fun _ : α => β)) (key : α) :
    mapValues f (table.erase key) = (mapValues f table).erase key :=
  AList.ext (kerase_map f table.entries key).symm

omit [DecidableEq α] in
theorem values_mapValues (f : β → γ) (table : AList (fun _ : α => β)) :
    (mapValues f table).entries.map Sigma.snd = (table.entries.map Sigma.snd).map f := by
  simp [mapValues, Function.comp_def]

def keysWhere (table : AList (fun _ : α => β)) (test : β → Bool) : List α :=
  (table.entries.filter (fun entry => test entry.2)).map Sigma.fst

theorem mem_keysWhere {test} :
    key ∈ keysWhere table test ↔ ∃ value, table.lookup key = some value ∧ test value = true := by
  simp only [keysWhere, mem_map, mem_filter]
  constructor
  · rintro ⟨⟨_, value⟩, ⟨member, passes⟩, rfl⟩
    exact ⟨value, mem_lookup_iff.mpr member, passes⟩
  · rintro ⟨value, found, passes⟩
    exact ⟨⟨key, value⟩, ⟨mem_lookup_iff.mp found, passes⟩, rfl⟩

omit [DecidableEq α] in
theorem nodup_keysWhere (table : AList (fun _ : α => β)) (test : β → Bool) : (keysWhere table test).Nodup :=
  table.keys_nodup.sublist (filter_sublist.map Sigma.fst)

theorem values_eq_filterMap (table : AList (fun _ : α => β)) (test : β → Bool) :
    (table.entries.filter (fun entry => test entry.2)).map Sigma.snd =
      (keysWhere table test).filterMap (fun key => table.lookup key) := by
  rw [keysWhere, filterMap_map, ← filterMap_eq_map]
  apply filterMap_congr
  intro entry member
  have found : table.lookup entry.1 = some entry.2 := mem_lookup_iff.mpr (mem_filter.mp member).1
  exact found.symm

theorem perm_kerase {entries : List (Sigma fun _ : α => β)} {value} (found : entries.dlookup key = some value) :
    entries.Perm (⟨key, value⟩ :: entries.kerase key) := by
  induction entries with
  | nil => simp at found
  | cons first rest ih =>
    by_cases same : key = first.1
    · obtain ⟨_, first⟩ := first
      subst same
      rw [dlookup_cons_eq] at found
      have erased : List.kerase key (⟨key, first⟩ :: rest) = rest := kerase_cons_eq rfl
      rw [erased, Option.some.inj found]
    · rw [dlookup_cons_ne _ _ same] at found
      rw [kerase_cons_ne same]
      exact ((ih found).cons first).trans (List.Perm.swap _ _ _)

theorem values_insert_perm (fresh : key ∉ table) (value : β) :
    ((table.insert key value).entries.map Sigma.snd).Perm (value :: table.entries.map Sigma.snd) := by
  rw [entries_insert_of_notMem fresh]
  exact .rfl

theorem values_erase_perm {value} (found : table.lookup key = some value) :
    (table.entries.map Sigma.snd).Perm (value :: (table.erase key).entries.map Sigma.snd) :=
  (perm_kerase found).map Sigma.snd

end EventBase.Foundations
