import EventBase.WalFiles
import EventBase.Foundations.Run

/-! Flushes and their temporary files. The temporary name comes from the path alone: two
flushes of one path share it, so do two paths that differ in the extension, and a path that
ends in `.tmp` is its own. -/

namespace EventBase.Proofs.TempFiles
open Foundations WalFiles List Option WalFiles

variable {file written : Nat} {path : WalPath} {store : WalStore}

variable {codec : StoreCodec} {files after : WalFiles codec}

/-- After a crash here every handle's path opens, with a store that was its own. -/
def Recoverable (files : WalFiles codec) : Prop :=
  ∀ path ∈ files.handles, ∃ store, load files.disk path = some store ∧ (path, store) ∈ files.known

def Unused (files : WalFiles codec) (temp : WalPath) : Prop :=
  (∀ path ∈ files.handles, path ≠ temp ∧ (files.disk.find temp = none ∨ files.disk.find path ≠ files.disk.find temp)) ∧
    ∀ call ∈ files.calls, call.file = none ∨ files.disk.find temp ≠ call.file

/-- No handle is made on a running flush's temporary file, and a flush opens an unused one. -/
def Apart (files : WalFiles codec) : FileEvent → Prop
  | .new path =>
    ∀ call ∈ files.calls, call.file = none ∨ (path ≠ call.path.tempPath ∧ files.disk.find path ≠ call.file)
  | .advance index =>
    ∀ call ∈ files.calls[index]?, call.phase = .opening → call.path.hasFileName → Unused files call.path.tempPath
  | _ => True

instance Unused.decidable (files : WalFiles codec) (temp : WalPath) : Decidable (Unused files temp) :=
  inferInstanceAs (Decidable (_ ∧ _))

instance Apart.decidable (files : WalFiles codec) : ∀ event, Decidable (Apart files event)
  | .new path => inferInstanceAs (Decidable (∀ call ∈ files.calls, call.file = none ∨
      (path ≠ call.path.tempPath ∧ files.disk.find path ≠ call.file)))
  | .flush _ _ => .isTrue trivial
  | .advance index => inferInstanceAs (Decidable (∀ call ∈ files.calls[index]?, call.phase = .opening →
      call.path.hasFileName → Unused files call.path.tempPath))
  | .fail _ => .isTrue trivial

/-- A flush that writes: its temporary file has what it has written, and is no handle's file. -/
structure Writing (files : WalFiles codec) (call : FlushCall) (file written : Nat) : Prop where
  named : files.disk.find call.path.tempPath = some file
  content : files.disk.content file = some ((codec.encode call.store).take written)
  within : written ≤ (codec.encode call.store).length
  clear : ∀ path ∈ files.handles, path ≠ call.path.tempPath ∧ files.disk.find path ≠ some file

structure Intact (files : WalFiles codec) : Prop where
  recoverable : Recoverable files
  begun : ∀ (index : Nat) (call : FlushCall), files.calls[index]? = some call → (call.path, call.store) ∈ files.known
  writing : ∀ (index : Nat) (call : FlushCall), files.calls[index]? = some call → ∀ file written,
    call.phase = .writing file written → Writing files call file written
  separate : ∀ (left right : Nat) (first second : FlushCall), left ≠ right → files.calls[left]? = some first →
    files.calls[right]? = some second → ∀ file, first.file = some file → second.file ≠ some file

theorem file_of_writing {call : FlushCall} (phase : call.phase = .writing file written) :
    call.file = some file := by rw [FlushCall.file, phase]

theorem writing_of_file {call : FlushCall} (opened : call.file = some file) :
    ∃ written, call.phase = .writing file written := by
  unfold FlushCall.file at opened
  split at opened
  · next written phase =>
    cases opened
    exact ⟨written, phase⟩
  · cases opened

theorem handle_of_known (known : (path, store) ∈ files.known) : path ∈ files.handles :=
  mem_map_of_mem known

theorem mem_handles {known other} (member : other ∈ (known ++ [(path, store)]).map Prod.fst) :
    other ∈ known.map Prod.fst ∨ other = path := by
  rw [map_append, mem_append] at member
  exact member.imp_right mem_singleton.mp

theorem Intact.idle (disk : Disk WalPath codec.Byte) : Intact ({ disk } : WalFiles codec) where
  recoverable _ member := by cases member
  begun _ _ found := by cases found
  writing _ _ found := by cases found
  separate _ _ _ _ _ found := by cases found

theorem Writing.moved {call} (writing : Writing files call file written)
    (named : after.disk.find call.path.tempPath = files.disk.find call.path.tempPath)
    (content : after.disk.content file = files.disk.content file)
    (clear : ∀ path ∈ after.handles, path ≠ call.path.tempPath ∧ after.disk.find path ≠ some file) :
    Writing after call file written where
  named := named.trans writing.named
  content := content.trans writing.content
  within := writing.within
  clear := clear

theorem Intact.new (intact : Intact files) (apart : Apart files (.new path))
    (stepped : files.step (.new path) = some after) : Intact after := by
  obtain ⟨store, loaded, rfl⟩ := map_eq_some_iff.mp stepped
  refine ⟨?_, ?_, ?_, intact.separate⟩
  · intro other member
    rcases mem_handles member with old | rfl
    · obtain ⟨found, reads, known⟩ := intact.recoverable other old
      exact ⟨found, reads, mem_append_left _ known⟩
    · exact ⟨store, loaded, mem_append_right _ (mem_singleton_self _)⟩
  · intro index call found
    exact mem_append_left _ (intact.begun index call found)
  · intro index call found file written phase
    have writing := intact.writing index call found file written phase
    refine writing.moved rfl rfl ?_
    intro other member
    rcases mem_handles member with old | rfl
    · exact writing.clear other old
    · rcases apart call (mem_of_getElem? found) with closed | ⟨different, unnamed⟩
      · cases closed.symm.trans (file_of_writing phase)
      · exact ⟨different, file_of_writing phase ▸ unnamed⟩

theorem Intact.flush (intact : Intact files)
    (stepped : files.step (.flush path store) = some after) : Intact after := by
  simp only [step] at stepped
  split at stepped
  case isFalse => cases stepped
  case isTrue handle =>
    cases stepped
    have handles : ∀ other ∈ (files.known ++ [(path, store)]).map Prod.fst, other ∈ files.handles := by
      intro other member
      rcases mem_handles member with old | rfl
      · exact old
      · exact handle
    refine ⟨?_, ?_, ?_, ?_⟩
    · intro other member
      obtain ⟨found, reads, known⟩ := intact.recoverable other (handles other member)
      exact ⟨found, reads, mem_append_left _ known⟩
    · intro index call found
      rcases getElem?_concat_cases found with ⟨_, rfl⟩ | old
      · exact mem_append_right _ (mem_singleton_self _)
      · exact mem_append_left _ (intact.begun index call old)
    · intro index call found file written phase
      rcases getElem?_concat_cases found with ⟨_, rfl⟩ | old
      · cases phase
      · have writing := intact.writing index call old file written phase
        exact writing.moved rfl rfl fun other member => writing.clear other (handles other member)
    · intro left right first second different one two file opened
      rcases getElem?_concat_cases one with ⟨_, rfl⟩ | oldOne
      · cases opened
      · rcases getElem?_concat_cases two with ⟨_, rfl⟩ | oldTwo
        · intro impossible
          cases impossible
        · exact intact.separate left right first second different oldOne oldTwo file opened

def moved (files : WalFiles codec) (index : Nat) (call : FlushCall) (disk : Disk WalPath codec.Byte) (phase : FlushPhase) :
    WalFiles codec :=
  { files with disk, calls := files.calls.set index { call with phase } }

theorem moved_disk (index : Nat) (call : FlushCall) (disk : Disk WalPath codec.Byte) (phase : FlushPhase) :
    (moved files index call disk phase).disk = disk := rfl

theorem step_advance {index call disk phase} (found : files.calls[index]? = some call)
    (proceeded : proceed files.disk call = some (disk, phase)) :
    files.step (.advance index) = some (moved files index call disk phase) := by
  rw [step, found, bind_some, proceeded]
  rfl

section
variable (intact : Intact files) {index : Nat} {call : FlushCall} (found : files.calls[index]? = some call)
include intact found

theorem Intact.proceeded {disk phase} (recoverable : Recoverable (moved files index call disk phase))
    (own : ∀ file written, phase = .writing file written → Writing (moved files index call disk phase) call file written ∧
      ∀ (other : Nat) (second : FlushCall), other ≠ index → files.calls[other]? = some second → second.file ≠ some file)
    (others : ∀ (other : Nat) (second : FlushCall), other ≠ index → files.calls[other]? = some second → ∀ file written,
      second.phase = .writing file written → Writing (moved files index call disk phase) second file written) :
    Intact (moved files index call disk phase) := by
  refine ⟨recoverable, ?_, ?_, ?_⟩
  · intro other second present
    rcases getElem?_set_cases present with ⟨_, rfl⟩ | ⟨_, old⟩
    · exact intact.begun index call found
    · exact intact.begun other second old
  · intro other second present file written going
    rcases getElem?_set_cases present with ⟨_, rfl⟩ | ⟨different, old⟩
    · obtain ⟨named, content, within, clear⟩ := (own file written going).1
      exact ⟨named, content, within, clear⟩
    · exact others other second different old file written going
  · intro left right first second different one two file opened
    rcases getElem?_set_cases one with ⟨rfl, rfl⟩ | ⟨leftOther, oldOne⟩
    · obtain ⟨written, going⟩ := writing_of_file opened
      rcases getElem?_set_cases two with ⟨rfl, _⟩ | ⟨rightOther, oldTwo⟩
      · exact absurd rfl different
      · exact (own file written going).2 right second rightOther oldTwo
    · rcases getElem?_set_cases two with ⟨rfl, rfl⟩ | ⟨rightOther, oldTwo⟩
      · intro again
        obtain ⟨written, going⟩ := writing_of_file again
        exact (own file written going).2 left first leftOther oldOne opened
      · exact intact.separate left right first second different oldOne oldTwo file opened

theorem Intact.ended : Intact (moved files index call files.disk .ended) := by
  apply intact.proceeded found
  · exact intact.recoverable
  · intro file written going
    cases going
  · intro other second _ old file written going
    have writing := intact.writing other second old file written going
    exact writing.moved rfl rfl writing.clear

omit intact found in
theorem load_of_read {disk changed : Disk WalPath codec.Byte} (same : changed.read path = disk.read path) :
    load changed path = load disk path := by rw [load, load, same]

theorem Intact.opened (unused : Unused files call.path.tempPath) :
    Intact (moved files index call (files.disk.create call.path.tempPath).2
      (.writing (files.disk.create call.path.tempPath).1 0)) := by
  have fresh : ∀ (other : Nat) (second : FlushCall), files.calls[other]? = some second →
      second.file ≠ some (files.disk.create call.path.tempPath).1 := by
    intro other second old opened
    obtain ⟨written, going⟩ := writing_of_file opened
    have writing := intact.writing other second old _ written going
    rcases Disk.create_file files.disk call.path.tempPath with same | new
    · rcases unused.2 second (mem_of_getElem? old) with closed | different
      · cases closed.symm.trans opened
      · exact different (same.trans opened.symm)
    · have := Disk.find_lt writing.named
      omega
  apply intact.proceeded found
  · intro path member
    obtain ⟨store, reads, known⟩ := intact.recoverable path member
    obtain ⟨different, other⟩ := unused.1 path member
    exact ⟨store, (load_of_read (Disk.read_create different other)).trans reads, known⟩
  · intro file written going
    cases going
    refine ⟨⟨?_, Disk.content_create_self _ _, Nat.zero_le _, ?_⟩, fun other second _ old => fresh other second old⟩
    · rw [moved_disk, Disk.find_create, if_pos rfl]
    · intro path member
      obtain ⟨different, other⟩ := unused.1 path member
      refine ⟨different, ?_⟩
      rw [moved_disk, Disk.find_create, if_neg different]
      exact Disk.find_ne_create other
  · intro other second _ old file written going
    have writing := intact.writing other second old file written going
    have opened := file_of_writing going
    have temp : second.path.tempPath ≠ call.path.tempPath := by
      intro same
      rcases unused.2 second (mem_of_getElem? old) with closed | different
      · cases closed.symm.trans opened
      · exact different (by rw [opened, ← same, writing.named])
    refine writing.moved ?_ ?_ ?_
    · rw [moved_disk, Disk.find_create, if_neg temp]
    · apply Disk.content_create _ (Disk.find_lt writing.named)
      intro same
      exact fresh other second old (same ▸ opened)
    · intro path member
      rw [moved_disk, Disk.find_create, if_neg (unused.1 path member).1]
      exact writing.clear path member

theorem Intact.wrote (going : call.phase = .writing file written) {byte}
    (next : (codec.encode call.store)[written]? = some byte) :
    Intact (moved files index call (files.disk.put codec.zero file written byte) (.writing file (written + 1))) := by
  have writing := intact.writing index call found file written going
  have inside := (List.getElem?_eq_some_iff.mp next).1
  apply intact.proceeded found
  · intro path member
    obtain ⟨store, reads, known⟩ := intact.recoverable path member
    exact ⟨store, (load_of_read (Disk.read_put _ (writing.clear path member).2 _ _)).trans reads, known⟩
  · intro file' written' going'
    cases going'
    refine ⟨⟨writing.named, ?_, inside, writing.clear⟩, ?_⟩
    · have put := Disk.content_put_self codec.zero writing.content byte
      rw [length_take_of_le writing.within] at put
      rw [moved_disk, put, take_add_one, next, toList_some]
    · intro other second different old
      exact intact.separate index other call second different.symm found old file (file_of_writing going)
  · intro other second different old file' written' going'
    have another := intact.writing other second old file' written' going'
    refine another.moved rfl ?_ another.clear
    apply Disk.content_put
    intro same
    exact intact.separate index other call second different.symm found old file (file_of_writing going)
      (same ▸ file_of_writing going')

omit intact found in
theorem Writing.installed {call} (writing : Writing files call file written)
    (complete : (codec.encode call.store)[written]? = none) :
    load ((files.disk.rename call.path.tempPath call.path).getD files.disk) call.path = some call.store := by
  obtain ⟨disk, done, contents, target, _⟩ := Disk.rename_some writing.named call.path
  have whole : disk.content file = some (codec.encode call.store) := by
    rw [contents, writing.content, take_of_length_le (getElem?_eq_none_iff.mp complete)]
  rw [done, getD_some, load, Disk.read_of_find target, whole]
  simp only [codec.decode_encode, map_some, PersistentWal.new, getD_some]

theorem Intact.renamed (going : call.phase = .writing file written)
    (complete : (codec.encode call.store)[written]? = none) :
    Intact (moved files index call ((files.disk.rename call.path.tempPath call.path).getD files.disk) .ended) := by
  have writing := intact.writing index call found file written going
  have begun := intact.begun index call found
  have installed := writing.installed complete
  obtain ⟨disk, done, contents, target, rest⟩ := Disk.rename_some writing.named call.path
  have kept : ∀ path ∈ files.handles, path ≠ call.path → disk.find path = files.disk.find path :=
    fun path member different => rest path (writing.clear path member).1 different
  rw [done, getD_some] at installed ⊢
  apply intact.proceeded found
  · intro path member
    by_cases same : path = call.path
    · subst same
      exact ⟨call.store, installed, begun⟩
    · obtain ⟨store, reads, known⟩ := intact.recoverable path member
      refine ⟨store, (load_of_read ?_).trans reads, known⟩
      exact Disk.read_congr (kept path member same) fun file _ => contents file
  · intro file' written' going'
    cases going'
  · intro other second different old file' written' going'
    have another := intact.writing other second old file' written' going'
    have distinct := intact.separate index other call second different.symm found old file (file_of_writing going)
    have temp : second.path.tempPath ≠ call.path.tempPath := by
      intro same
      have same' := another.named
      rw [same, writing.named] at same'
      exact distinct (same' ▸ file_of_writing going')
    have handle := handle_of_known begun
    refine another.moved ?_ (contents file') ?_
    · exact rest _ temp (another.clear _ handle).1.symm
    · intro path member
      refine ⟨(another.clear path member).1, ?_⟩
      by_cases same : path = call.path
      · subst same
        intro impossible
        exact distinct ((target.symm.trans impossible) ▸ file_of_writing going')
      · exact (kept path member same) ▸ (another.clear path member).2

end

theorem Intact.advance (intact : Intact files) {index} (apart : Apart files (.advance index))
    (stepped : files.step (.advance index) = some after) : Intact after := by
  obtain ⟨call, found, moved⟩ := bind_eq_some_iff.mp stepped
  obtain ⟨⟨disk, phase⟩, proceeded, rfl⟩ := map_eq_some_iff.mp moved
  unfold proceed at proceeded
  cases current : call.phase with
  | opening =>
    simp only [current] at proceeded
    split at proceeded
    · next writable =>
      cases proceeded
      exact intact.opened found (apart call found current writable)
    · cases proceeded
      exact intact.ended found
  | writing file written =>
    simp only [current] at proceeded
    split at proceeded
    · next byte next =>
      cases proceeded
      exact intact.wrote found current next
    · next complete =>
      cases proceeded
      exact intact.renamed found current complete
  | ended =>
    simp only [current] at proceeded
    cases proceeded

theorem Intact.step (intact : Intact files) {event} (apart : Apart files event)
    (stepped : files.step event = some after) : Intact after := by
  cases event with
  | new path => exact intact.new apart stepped
  | flush path store => exact intact.flush stepped
  | advance index => exact intact.advance apart stepped
  | fail index =>
    obtain ⟨call, found, rfl⟩ := map_eq_some_iff.mp stepped
    exact intact.ended found

private theorem writes_on (intact : Intact files) {index call} (found : files.calls[index]? = some call)
    (going : call.phase = .writing file written) (rest : Nat)
    (remaining : written + rest = (codec.encode call.store).length) :
    ∃ after, run step files (List.replicate (rest + 1) (.advance index)) = some after ∧
      after.calls[index]? = some { call with phase := .ended } ∧ load after.disk call.path = some call.store := by
  induction rest generalizing files written call with
  | zero =>
    have inside := (List.getElem?_eq_some_iff.mp found).1
    have complete : (codec.encode call.store)[written]? = none := getElem?_eq_none (by omega)
    have installed := (intact.writing index call found file written going).installed complete
    have renames : proceed files.disk call =
        some ((files.disk.rename call.path.tempPath call.path).getD files.disk, .ended) := by
      simp only [proceed, going, complete]
    rw [replicate_succ, run, step_advance found renames]
    exact ⟨_, rfl, getElem?_set_self inside, installed⟩
  | succ rest ih =>
    obtain ⟨byte, next⟩ : ∃ byte, (codec.encode call.store)[written]? = some byte :=
      ⟨_, getElem?_eq_getElem (by omega)⟩
    have wrote := intact.wrote found going next
    have inside := (List.getElem?_eq_some_iff.mp found).1
    have fewer : written + 1 + rest = (codec.encode call.store).length := by omega
    obtain ⟨after, ran, installed⟩ := ih wrote (getElem?_set_self inside) rfl fewer
    refine ⟨after, ?_, installed⟩
    have writes : proceed files.disk call =
        some (files.disk.put codec.zero file written byte, .writing file (written + 1)) := by
      simp only [proceed, going, next]
    rw [replicate_succ, run, step_advance found writes, bind_some]
    exact ran

/-- Where every flush opens a temporary file of its own, no crash takes a file away. -/
theorem files_survive {disk : Disk WalPath codec.Byte} {events : List FileEvent}
    (ran : run WalFiles.step { disk } events = some files) (apart : Along WalFiles.step Apart { disk } events) :
    Recoverable files := by
  have intact : Intact files :=
    run_invariant Intact (fun allowed intact stepped => intact.step allowed stepped) apart (Intact.idle disk) ran
  exact intact.recoverable

private def halves : StoreCodec where
  Byte := WalStore × Bool
  zero := (.empty, false)
  encode store := [(store, false), (store, true)]
  decode
    | first :: _ :: _ => some first.1
    | _ => none
  decode_encode _ := rfl

private def walBin : WalPath := ⟨"data", "wal.bin"⟩
private def jobsBin : WalPath := ⟨"data", "jobs.bin"⟩

private def counted (counter : Nat) : WalStore := { WalStore.empty with idCounter := counter }

/-- Flushes of two paths at once, and two of one path after each other, the second cut short. -/
private def crossed : List FileEvent :=
  [.new walBin, .new jobsBin, .flush walBin (counted 1), .flush jobsBin (counted 2), .advance 0, .advance 1, .advance 0,
    .advance 1, .advance 0, .advance 0, .flush walBin (counted 3), .advance 2, .advance 2]

theorem crossed_flushes_survive : ∃ files, run WalFiles.step ({ disk := .empty } : WalFiles halves) crossed = some files ∧
    Recoverable files := by
  have ran := rfl (a := run step ({ disk := .empty } : WalFiles halves) crossed)
  exact ⟨_, ran, files_survive ran (by decide +kernel)⟩

/-- `build_wal` opens the path twice. The first flush has written the temporary file when
the second truncates it, and renames what is left. -/
private def overtaken : List FileEvent :=
  [.new walBin, .new walBin, .flush walBin (counted 1), .flush walBin (counted 2), .advance 0, .advance 0, .advance 0,
    .advance 1, .advance 0]

theorem overtaken_flush_loses_file : ∃ files,
    run WalFiles.step ({ disk := .empty } : WalFiles halves) overtaken = some files ∧ ¬ Recoverable files := by
  refine ⟨_, rfl, ?_⟩
  intro recoverable
  obtain ⟨store, loaded, _⟩ := recoverable walBin (by decide)
  cases loaded

end EventBase.Proofs.TempFiles
