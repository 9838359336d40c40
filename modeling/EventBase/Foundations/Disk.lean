import EventBase.Foundations.AssocList

/-! A disk: names refer to files, and a file that is open for writing is written byte by
byte, whatever becomes of its name. Opening a name truncates its file or makes a new one;
a rename is atomic. -/

namespace EventBase.Foundations
open List AList

structure Disk (P β : Type) [DecidableEq P] where
  names : AList (fun _ : P => Nat)
  files : List (List β)
  bound : ∀ path file, names.lookup path = some file → file < files.length

namespace Disk
variable {P β : Type} [DecidableEq P]

def empty : Disk P β where
  names := ∅
  files := []
  bound _ _ found := by cases found

def find (disk : Disk P β) (path : P) : Option Nat := disk.names.lookup path

def content (disk : Disk P β) (file : Nat) : Option (List β) := disk.files[file]?

def read (disk : Disk P β) (path : P) : Option (List β) := (disk.find path).bind disk.content

def create (disk : Disk P β) (path : P) : Nat × Disk P β :=
  match found : disk.names.lookup path with
  | some file =>
    (file, {
      names := disk.names
      files := disk.files.set file []
      bound := fun other named present => by
        rw [length_set]
        exact disk.bound other named present })
  | none =>
    (disk.files.length, {
      names := disk.names.insert path disk.files.length
      files := disk.files ++ [[]]
      bound := fun other named present => by
        rw [length_append, length_singleton]
        obtain ⟨-, rfl⟩ | ⟨-, kept⟩ := lookup_insert_cases present
        · exact Nat.lt_succ_self _
        · exact Nat.lt_succ_of_lt (disk.bound other named kept) })

def put (fill : β) (disk : Disk P β) (file offset : Nat) (byte : β) : Disk P β where
  names := disk.names
  files := disk.files.modify file fun bytes =>
    (bytes.take offset ++ List.replicate (offset - bytes.length) fill) ++ byte :: bytes.drop (offset + 1)
  bound path named present := by
    rw [length_modify]
    exact disk.bound path named present

def rename (disk : Disk P β) (source target : P) : Option (Disk P β) :=
  match found : disk.names.lookup source with
  | some file => some {
      names := (disk.names.erase source).insert target file
      files := disk.files
      bound := fun path named present => by
        obtain ⟨-, rfl⟩ | ⟨-, kept⟩ := lookup_insert_cases present
        · exact disk.bound source named found
        · exact disk.bound path named (lookup_erase_cases kept).2 }
  | none => none

section
variable {disk : Disk P β} {path other : P} {file : Nat}

theorem find_create (disk : Disk P β) (path other : P) :
    (disk.create path).2.find other = if other = path then some (disk.create path).1 else disk.find other := by
  unfold create find
  split
  · next file found =>
    split
    · next same => rw [same, found]
    · rfl
  · split
    · next same => rw [same, lookup_insert]
    · next apart => exact lookup_insert_ne apart

theorem create_file (disk : Disk P β) (path : P) :
    disk.find path = some (disk.create path).1 ∨ (disk.create path).1 = disk.files.length := by
  unfold create find
  split
  · next file found => exact .inl found
  · exact .inr rfl

theorem content_create_self (disk : Disk P β) (path : P) : (disk.create path).2.content (disk.create path).1 = some [] := by
  unfold create content
  split
  · next file found => exact getElem?_set_self (disk.bound path file found)
  · simp

theorem content_create (disk : Disk P β) {path file} (within : file < disk.files.length)
    (apart : file ≠ (disk.create path).1) : (disk.create path).2.content file = disk.content file := by
  unfold create content at *
  split at apart
  · next named found => exact getElem?_set_ne (Ne.symm apart)
  · exact getElem?_append_left within

theorem find_lt (found : disk.find path = some file) : file < disk.files.length := disk.bound path file found

theorem content_put_self (fill : β) {bytes} (held : disk.content file = some bytes) (byte : β) :
    (disk.put fill file bytes.length byte).content file = some (bytes ++ [byte]) := by
  unfold content at held
  simp [content, put, held]

theorem content_put (fill : β) {named} (apart : named ≠ file) (offset : Nat) (byte : β) :
    (disk.put fill file offset byte).content named = disk.content named :=
  getElem?_modify_ne _ _ (Ne.symm apart)

theorem find_ne_create {temp} (other : disk.find temp = none ∨ disk.find path ≠ disk.find temp) :
    disk.find path ≠ some (disk.create temp).1 := by
  intro found
  rcases create_file disk temp with old | fresh
  · rcases other with absent | different
    · cases absent.symm.trans old
    · exact different (found.trans old.symm)
  · have := find_lt found
    omega

theorem read_of_find (found : disk.find path = some file) : disk.read path = disk.content file := by
  rw [read, found, Option.bind_some]

theorem read_of_none (absent : disk.find path = none) : disk.read path = none := by rw [read, absent, Option.bind_none]

theorem read_congr {changed : Disk P β} (name : changed.find path = disk.find path)
    (contents : ∀ file, disk.find path = some file → changed.content file = disk.content file) :
    changed.read path = disk.read path := by
  cases found : disk.find path with
  | none => rw [read_of_none found, read_of_none (name.trans found)]
  | some file => rw [read_of_find found, read_of_find (name.trans found), contents file found]

theorem read_create {temp} (apart : path ≠ temp) (other : disk.find temp = none ∨ disk.find path ≠ disk.find temp) :
    (disk.create temp).2.read path = disk.read path := by
  apply read_congr
  · rw [find_create, if_neg apart]
  · intro file found
    apply content_create disk (find_lt found)
    intro same
    exact find_ne_create other (same ▸ found)

theorem read_put (fill : β) (apart : disk.find path ≠ some file) (offset : Nat) (byte : β) :
    (disk.put fill file offset byte).read path = disk.read path := by
  refine read_congr rfl ?_
  intro named found
  apply content_put
  intro same
  exact apart (same ▸ found)

theorem rename_some (found : disk.find path = some file) (target : P) :
    ∃ after, disk.rename path target = some after ∧ (∀ named, after.content named = disk.content named) ∧
      after.find target = some file ∧ ∀ other, other ≠ path → other ≠ target → after.find other = disk.find other := by
  unfold rename
  split
  · next named present =>
    cases present.symm.trans found
    refine ⟨_, rfl, fun _ => rfl, lookup_insert _, fun other apart different => ?_⟩
    exact (lookup_insert_ne different).trans (lookup_erase_ne apart)
  · next absent => cases absent.symm.trans found

end

end Disk

end EventBase.Foundations
