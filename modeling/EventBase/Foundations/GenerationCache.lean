import Mathlib.Data.List.Basic

/-! A cache that is refreshed when a generation counter has moved. The reader loads
the counter, then reads a list of names, then their handles, and the registry may
change between any two of these. -/

namespace EventBase.Foundations.GenerationCache

variable {κ υ : Type}

/-- What the cache is read from, and what has happened to it: `gone` are the names
whose removal is complete, `due` those whose addition is, `lost` those whose
removal has begun. -/
structure Registry (κ υ : Type) where
  generation : Nat
  names : List κ
  handle : κ → Option υ
  gone : List κ
  due : List κ
  lost : List κ

structure Registry.Sound (registry : Registry κ υ) : Prop where
  detached : ∀ name ∈ registry.gone, registry.handle name = none
  served : ∀ name ∈ registry.due, name ∉ registry.lost → name ∈ registry.names ∧ (registry.handle name).isSome

/-- A change of the registry. Whoever completes an addition or a removal moves the
counter in the same step. -/
structure Registry.Advances (before after : Registry κ υ) : Prop where
  generation : before.generation ≤ after.generation
  gone : before.gone ⊆ after.gone
  due : before.due ⊆ after.due
  lost : before.lost ⊆ after.lost
  silent : after.generation = before.generation → after.gone = before.gone ∧ after.due = before.due

/-- `seen` is the counter at the last refresh, or nothing when the cache was
invalidated since. -/
structure Cache (κ υ : Type) where
  seen : Option Nat
  entries : List (κ × υ)

/-- What had been completed when the reader loaded the counter. -/
structure Load (κ : Type) where
  gone : List κ
  due : List κ
  deriving DecidableEq

inductive Phase (κ : Type) where
  | idle
  | loaded (generation : Nat) (load : Load κ)
  | named (generation : Nat) (names : List κ) (load : Load κ)
  | ready (load : Load κ)
  deriving DecidableEq

def Registry.load (registry : Registry κ υ) : Load κ := ⟨registry.gone, registry.due⟩

def Registry.collect (registry : Registry κ υ) (names : List κ) : List (κ × υ) :=
  names.filterMap fun name => (registry.handle name).map (Prod.mk name)

theorem Registry.mem_collect {registry : Registry κ υ} {names : List κ} {name : κ} :
    name ∈ (registry.collect names).map Prod.fst ↔ name ∈ names ∧ (registry.handle name).isSome := by
  simp only [Registry.collect, List.mem_map, List.mem_filterMap, Option.map_eq_some_iff, Option.isSome_iff_exists]
  constructor
  · rintro ⟨_, ⟨name, member, value, found, rfl⟩, rfl⟩
    exact ⟨member, value, found⟩
  · rintro ⟨member, value, found⟩
    exact ⟨(name, value), ⟨name, member, value, found, rfl⟩, rfl⟩

def Covers (names due lost : List κ) : Prop := ∀ name ∈ due, name ∉ lost → name ∈ names

theorem Covers.mono {names due lost more : List κ} (covers : Covers names due lost) (grown : lost ⊆ more) :
    Covers names due more :=
  fun name member kept => covers name member fun lost => kept (grown lost)

/-- A cache that carries the current counter is right about everything completed. -/
structure Fresh (registry : Registry κ υ) (cache : Cache κ υ) : Prop where
  bounded : ∀ generation, cache.seen = some generation → generation ≤ registry.generation
  attached : cache.seen = some registry.generation → ∀ name ∈ cache.entries.map Prod.fst, name ∉ registry.gone
  covers : cache.seen = some registry.generation → Covers (cache.entries.map Prod.fst) registry.due registry.lost

def Reading (registry : Registry κ υ) (cache : Cache κ υ) : Phase κ → Prop
  | .idle => True
  | .loaded generation load =>
    generation ≤ registry.generation ∧ load.gone ⊆ registry.gone ∧ load.due ⊆ registry.due
  | .named generation names load =>
    (generation ≤ registry.generation ∧ load.gone ⊆ registry.gone ∧ load.due ⊆ registry.due) ∧
      Covers names load.due registry.lost ∧
        (generation = registry.generation → Covers names registry.due registry.lost)
  | .ready load =>
    (∀ name ∈ cache.entries.map Prod.fst, name ∉ load.gone) ∧
      Covers (cache.entries.map Prod.fst) load.due registry.lost

structure Coherent (registry : Registry κ υ) (cache : Cache κ υ) (phase : Phase κ) : Prop where
  fresh : Fresh registry cache
  reading : Reading registry cache phase

section
variable {registry after : Registry κ υ} {cache : Cache κ υ} {phase : Phase κ}

theorem Fresh.advances (fresh : Fresh registry cache) (advances : registry.Advances after) : Fresh after cache := by
  -- If the counter moved, the cache is behind it; if not, nothing was completed.
  have current : cache.seen = some after.generation → after.generation = registry.generation := fun seen =>
    Nat.le_antisymm (fresh.bounded _ seen) advances.generation
  refine ⟨fun generation seen => Nat.le_trans (fresh.bounded generation seen) advances.generation, ?_, ?_⟩
  · intro seen
    have same := current seen
    rw [(advances.silent same).1]
    exact fresh.attached (same ▸ seen)
  · intro seen
    have same := current seen
    rw [(advances.silent same).2]
    exact (fresh.covers (same ▸ seen)).mono advances.lost

private theorem load_advances {generation : Nat} {load : Load κ}
    (behind : generation ≤ registry.generation ∧ load.gone ⊆ registry.gone ∧ load.due ⊆ registry.due)
    (advances : registry.Advances after) :
    generation ≤ after.generation ∧ load.gone ⊆ after.gone ∧ load.due ⊆ after.due := by
  obtain ⟨bounded, gone, due⟩ := behind
  exact ⟨Nat.le_trans bounded advances.generation, List.Subset.trans gone advances.gone, List.Subset.trans due advances.due⟩

theorem Reading.advances (reading : Reading registry cache phase) (advances : registry.Advances after) :
    Reading after cache phase := by
  cases phase with
  | idle => trivial
  | loaded generation load => exact load_advances reading advances
  | named generation names load =>
    obtain ⟨behind, loaded, current⟩ := reading
    refine ⟨load_advances behind advances, loaded.mono advances.lost, ?_⟩
    intro equal
    have same : after.generation = registry.generation := Nat.le_antisymm (equal ▸ behind.1) advances.generation
    rw [(advances.silent same).2]
    exact (current (equal.trans same)).mono advances.lost
  | ready load => exact ⟨reading.1, reading.2.mono advances.lost⟩

theorem Coherent.advances (coherent : Coherent registry cache phase) (advances : registry.Advances after) :
    Coherent after cache phase :=
  ⟨coherent.fresh.advances advances, coherent.reading.advances advances⟩

theorem Coherent.loadStale (coherent : Coherent registry cache phase) :
    Coherent registry cache (.loaded registry.generation registry.load) :=
  ⟨coherent.fresh, Nat.le_refl _, List.Subset.refl _, List.Subset.refl _⟩

theorem Coherent.loadCurrent (coherent : Coherent registry cache phase)
    (current : cache.seen = some registry.generation) : Coherent registry cache (.ready registry.load) :=
  ⟨coherent.fresh, coherent.fresh.attached current, coherent.fresh.covers current⟩

theorem Coherent.readNames {generation : Nat} {load : Load κ} (sound : registry.Sound)
    (coherent : Coherent registry cache (.loaded generation load)) :
    Coherent registry cache (.named generation registry.names load) := by
  have covers : Covers registry.names registry.due registry.lost := fun name member kept =>
    (sound.served name member kept).1
  refine ⟨coherent.fresh, coherent.reading, ?_, fun _ => covers⟩
  exact fun name member => covers name (coherent.reading.2.2 member)

theorem Coherent.readHandles {generation : Nat} {names : List κ} {load : Load κ} (sound : registry.Sound)
    (coherent : Coherent registry cache (.named generation names load)) :
    Coherent registry ⟨some generation, registry.collect names⟩ (.ready load) := by
  obtain ⟨⟨bounded, gone, due⟩, loaded, current⟩ := coherent.reading
  have attached : ∀ name ∈ (registry.collect names).map Prod.fst, name ∉ registry.gone := by
    intro name member removed
    have handled := (Registry.mem_collect.mp member).2
    rw [sound.detached name removed] at handled
    cases handled
  have collected : ∀ {wanted}, wanted ⊆ registry.due → Covers names wanted registry.lost →
      Covers ((registry.collect names).map Prod.fst) wanted registry.lost := by
    intro wanted inside covers name member kept
    exact Registry.mem_collect.mpr ⟨covers name member kept, (sound.served name (inside member) kept).2⟩
  refine ⟨⟨?_, fun _ => attached, ?_⟩, ?_, collected due loaded⟩
  · intro seen equal
    cases equal
    exact bounded
  · intro seen
    exact collected (List.Subset.refl _) (current (Option.some.inj seen))
  · exact fun name member removed => attached name member (gone removed)

theorem Coherent.idle (coherent : Coherent registry cache phase) : Coherent registry cache .idle :=
  ⟨coherent.fresh, trivial⟩

theorem Coherent.invalidate (entries : List (κ × υ)) : Coherent registry ⟨none, entries⟩ .idle :=
  ⟨⟨nofun, nofun, nofun⟩, trivial⟩

end

end EventBase.Foundations.GenerationCache
