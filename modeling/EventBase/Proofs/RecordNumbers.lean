import EventBase.FlushedWal
import EventBase.Foundations.LockedData
import EventBase.Proofs.WalRecords

/-! The numbers of the records of a `PersistentWal`. The counter is held until the record
it numbers is in its map, and a flush holds all four locks when it reads the counter. -/

namespace EventBase.Proofs.RecordNumbers
open Foundations NestedLocks LockedData WalRecords List Option
open FairLock (Mode)

def ids (table : Table WalRecord) : List Nat := (Table.values table).map WalRecord.recordId

def numbers (store : WalStore) : List Nat := ids store.records ++ ids store.delays

/-- Every entry is filed under its message's id, and the numbers are distinct and counted. -/
structure Numbered (store : WalStore) : Prop where
  records : Keyed store.records
  delays : Keyed store.delays
  distinct : (numbers store).Nodup
  counted : ∀ number ∈ numbers store, number ≤ store.idCounter

section
variable {table : Table WalRecord} {messageId : String} {record : WalRecord}

theorem ids_erase (table : Table WalRecord) (messageId : String) : (ids (table.erase messageId)).Sublist (ids table) := by
  have entries : (table.erase messageId).entries.Sublist table.entries := kerase_sublist messageId table.entries
  exact (entries.map fun entry => entry.2).map WalRecord.recordId

theorem ids_setStatus (found : table.lookup messageId = some record) (status : WalRecordState) :
    (ids (Table.setStatus table messageId record status)).Perm (ids table) :=
  ((values_erase_perm found).map WalRecord.recordId).symm

theorem ids_foldl_erase (entries : List (Sigma fun _ : String => WalRecord)) (table : Table WalRecord) :
    (ids (entries.foldl (fun delays entry => delays.erase entry.1) table)).Sublist (ids table) := by
  induction entries generalizing table with
  | nil => exact .refl _
  | cons entry rest ih => exact (ih (table.erase entry.1)).trans (ids_erase table entry.1)

theorem keyed_erase (keyed : Keyed table) (messageId : String) : Keyed (table.erase messageId) :=
  fun other found present => keyed other found (lookup_erase_cases present).2

theorem keyed_foldl_erase (entries : List (Sigma fun _ : String => WalRecord)) (keyed : Keyed table) :
    Keyed (entries.foldl (fun delays entry => delays.erase entry.1) table) := by
  induction entries generalizing table with
  | nil => exact keyed
  | cons entry rest ih => exact ih (keyed_erase keyed entry.1)

theorem nodup_of_subperm {first second : List Nat} (part : first.Subperm second) (distinct : second.Nodup) :
    first.Nodup := by
  obtain ⟨same, perm, sublist⟩ := part
  exact perm.nodup_iff.mp (distinct.sublist sublist)

end

section
variable {store after : WalStore}

theorem Numbered.shrink (numbered : Numbered store) (records : Keyed after.records) (delays : Keyed after.delays)
    (part : (numbers after).Subperm (numbers store)) (counter : after.idCounter = store.idCounter) : Numbered after where
  records := records
  delays := delays
  distinct := nodup_of_subperm part numbered.distinct
  counted number member := by
    rw [counter]
    exact numbered.counted number (part.subset member)

theorem Numbered.extend (numbered : Numbered store) (fresh : store.idCounter ∉ numbers store) (records : Keyed after.records)
    (delays : Keyed after.delays) (part : (numbers after).Subperm (store.idCounter :: numbers store))
    (counter : after.idCounter = store.idCounter) : Numbered after where
  records := records
  delays := delays
  distinct := nodup_of_subperm part (nodup_cons.mpr ⟨fresh, numbered.distinct⟩)
  counted number member := by
    rw [counter]
    obtain rfl | old := mem_cons.mp (part.subset member)
    · exact Nat.le_refl _
    · exact numbered.counted number old

theorem Numbered.countUp (numbered : Numbered store) : Numbered store.countUp where
  records := numbered.records
  delays := numbered.delays
  distinct := numbered.distinct
  counted number member := (numbered.counted number member).trans (Nat.le_succ _)

theorem Numbered.putRecord (numbered : Numbered store) (fresh : store.idCounter ∉ numbers store) (record : WalRecord) :
    Numbered (store.putRecord record) := by
  have records : Keyed (store.putRecord record).records := numbered.records.insert rfl
  have delays : Keyed (store.putRecord record).delays := numbered.delays
  apply numbered.extend fresh records delays
  · have list : numbers (store.putRecord record) =
        store.idCounter :: (ids (store.records.erase record.message.id) ++ ids store.delays) := rfl
    rw [list]
    exact (((ids_erase _ _).append_right _).cons_cons _).subperm
  · rfl

theorem Numbered.putDelay (numbered : Numbered store) (fresh : store.idCounter ∉ numbers store) (record : WalRecord) :
    Numbered (store.putDelay record) := by
  have records : Keyed (store.putDelay record).records := numbered.records
  have delays : Keyed (store.putDelay record).delays := numbered.delays.insert rfl
  apply numbered.extend fresh records delays
  · have list : numbers (store.putDelay record) =
        ids store.records ++ store.idCounter :: ids (store.delays.erase record.message.id) := rfl
    rw [list]
    exact perm_middle.subperm.trans (((ids_erase _ _).append_left _).cons_cons _).subperm
  · rfl

theorem setStatus_part (keyed : Keyed store.records) (messageId : String) (status : WalRecordState) :
    Keyed (store.setStatus messageId status).records ∧
      (numbers (store.setStatus messageId status)).Subperm (numbers store) ∧
      (store.setStatus messageId status).delays = store.delays ∧
      (store.setStatus messageId status).workerRegistry = store.workerRegistry ∧
      (store.setStatus messageId status).idCounter = store.idCounter := by
  unfold WalStore.setStatus
  split
  · next record found =>
    refine ⟨keyed.insert (keyed messageId record found), ?_, rfl, rfl, rfl⟩
    exact ((ids_setStatus found status).append_right (ids store.delays)).subperm
  · exact ⟨keyed, List.Subperm.refl _, rfl, rfl, rfl⟩

end

def rules : Rules WalLock FlushData where
  invariant data := Numbered data.store ∧ ∀ snapshot ∈ data.snapshots, Numbered snapshot
  frame lock before after :=
    match lock with
    | .records => after.store.records = before.store.records
    | .delays => after.store.delays = before.store.delays
    | .workerRegistry => after.store.workerRegistry = before.store.workerRegistry
    | .idCounter => after.store.idCounter = before.store.idCounter ∧ numbers after.store ⊆ numbers before.store
  refl lock data := by
    cases lock with
    | records | delays | workerRegistry => rfl
    | idCounter => exact ⟨rfl, Subset.refl _⟩
  trans lock first second third before after := by
    cases lock with
    | records | delays | workerRegistry => exact Eq.trans after before
    | idCounter => exact ⟨after.1.trans before.1, Subset.trans after.2 before.2⟩

section
variable {known : FlushData}

theorem follows_guard {lock mode update} (keeps : ∀ store, Numbered store → Numbered (update store))
    (frames : ∀ data other, rules.invariant data → (other, .write) ≠ (lock, mode) →
      rules.frame other data (data.onStore update)) :
    Follows rules (FlushData.lift (.guard lock mode update fun _ => .done)) [] known := by
  refine ⟨nofun, fun data invariant _ => ⟨⟨keeps data.store invariant.1, invariant.2⟩, fun other apart => ?_, ?_⟩⟩
  · exact frames data other invariant fun same => apart (same ▸ mem_cons_self)
  · simp [Follows, FlushData.lift]

theorem follows_read {lock} : Follows rules (FlushData.lift (.guard lock .read id fun _ => .done)) [] known :=
  follows_guard (fun _ numbered => numbered) fun data other _ _ => rules.refl other data

theorem follows_numbering {lock put} (apart : lock ≠ .idCounter)
    (keeps : ∀ store, Numbered store → store.idCounter ∉ numbers store → Numbered (put store))
    (frames : ∀ data : FlushData, ∀ other, other ≠ lock → other ≠ .idCounter → rules.frame other data (data.onStore put)) :
    Follows rules (FlushData.lift (.acquire .idCounter .write WalStore.countUp fun _ =>
      .guard lock .write put fun _ => .release .idCounter .done)) [] known := by
  refine ⟨nofun, fun before invariant _ => ⟨⟨invariant.1.countUp, invariant.2⟩, ?_, ?_⟩⟩
  · intro other held
    cases other with
    | records | delays | workerRegistry => rfl
    | idCounter => exact absurd mem_cons_self held
  · refine ⟨by simpa using apart, fun data later knows => ?_⟩
    obtain ⟨counter, old⟩ := knows (.idCounter, .write) mem_cons_self
    have fresh : data.store.idCounter ∉ numbers data.store := by
      intro used
      have bound := invariant.1.counted _ (old used)
      rw [counter] at bound
      exact absurd bound (Nat.not_succ_le_self _)
    refine ⟨⟨keeps data.store later.1 fresh, later.2⟩, fun other held => ?_, ?_⟩
    · apply frames
      · rintro rfl
        exact held mem_cons_self
      · rintro rfl
        exact held (mem_cons_of_mem _ mem_cons_self)
    · simp [Follows, FlushData.lift, Ne.symm apart]

theorem follows_append (record : WalRecord) : Follows rules (PersistentWal.callCode (.append record)) [] known := by
  apply follows_numbering (show WalLock.records ≠ .idCounter from nofun)
  · exact fun store numbered fresh => numbered.putRecord fresh record
  · intro data other apart counter
    cases other with
    | records => exact absurd rfl apart
    | idCounter => exact absurd rfl counter
    | delays | workerRegistry => rfl

theorem follows_schedule (record : WalRecord) : Follows rules (PersistentWal.callCode (.schedule record)) [] known := by
  apply follows_numbering (show WalLock.delays ≠ .idCounter from nofun)
  · exact fun store numbered fresh => numbered.putDelay fresh record
  · intro data other apart counter
    cases other with
    | delays => exact absurd rfl apart
    | idCounter => exact absurd rfl counter
    | records | workerRegistry => rfl

theorem follows_updateState (messageId : String) (status : WalRecordState) (placeholder : EMessage) :
    Follows rules (PersistentWal.callCode (.updateState messageId status placeholder)) [] known := by
  apply follows_guard
  · intro store numbered
    obtain ⟨records, part, delays, -, counter⟩ := setStatus_part numbered.records messageId status
    exact numbered.shrink records (delays ▸ numbered.delays) part counter
  · intro data other invariant apart
    obtain ⟨-, part, delays, registry, counter⟩ := setStatus_part invariant.1.records messageId status
    cases other with
    | records => exact absurd rfl apart
    | delays => exact delays
    | workerRegistry => exact registry
    | idCounter => exact ⟨counter, part.subset⟩

theorem follows_removal {update} (records : ∀ store, (update store).records = store.records)
    (registry : ∀ store, (update store).workerRegistry = store.workerRegistry)
    (counter : ∀ store, (update store).idCounter = store.idCounter)
    (keyed : ∀ store, Keyed store.delays → Keyed (update store).delays)
    (fewer : ∀ store, (ids (update store).delays).Sublist (ids store.delays)) :
    Follows rules (FlushData.lift (.guard .delays .write update fun _ => .done)) [] known := by
  have part (store : WalStore) : (numbers (update store)).Subperm (numbers store) := by
    rw [numbers, records]
    exact ((fewer store).append_left _).subperm
  apply follows_guard
  · intro store numbered
    exact numbered.shrink (records store ▸ numbered.records) (keyed store numbered.delays) (part store) (counter store)
  · intro data other _ apart
    cases other with
    | delays => exact absurd rfl apart
    | records => exact records data.store
    | workerRegistry => exact registry data.store
    | idCounter => exact ⟨counter data.store, (part data.store).subset⟩

theorem follows_flush : Follows rules (PersistentWal.callCode .flush) [] known := by
  refine ⟨nofun, fun first invariant _ => ⟨invariant, fun other _ => rules.refl other first, ?_⟩⟩
  refine ⟨by simp, fun second invariant knows => ⟨invariant, fun other _ => rules.refl other second, ?_⟩⟩
  have records : second.store.records = first.store.records := knows (.records, .read) (by simp)
  refine ⟨by simp, fun third invariant knows => ⟨invariant, fun other _ => rules.refl other third, ?_⟩⟩
  have records : third.store.records = first.store.records := (knows (.records, .read) (by simp)).trans records
  have delays : third.store.delays = second.store.delays := knows (.delays, .read) (by simp)
  refine ⟨by simp, fun data invariant knows => ⟨⟨invariant.1, ?_⟩, fun other _ => rules.refl other data, by simp [Follows]⟩⟩
  have records : data.store.records = first.store.records := (knows (.records, .read) (by simp)).trans records
  have delays : data.store.delays = second.store.delays := (knows (.delays, .read) (by simp)).trans delays
  have registry : data.store.workerRegistry = third.store.workerRegistry := knows (.workerRegistry, .read) (by simp)
  have same : data.store = ⟨first.store.records, second.store.delays, third.store.workerRegistry, data.store.idCounter⟩ := by
    rw [← records, ← delays, ← registry]
  intro snapshot member
  obtain old | new := mem_append.mp member
  · exact invariant.2 snapshot old
  · rw [mem_singleton.mp new, ← same]
    exact invariant.1

theorem follows_call (method : WalMethod) : Follows rules (PersistentWal.callCode method) [] known := by
  cases method with
  | append record => exact follows_append record
  | updateState messageId status placeholder => exact follows_updateState messageId status placeholder
  | replayPending | loadWorkerRegistry => exact follows_read
  | flush => exact follows_flush
  | schedule record => exact follows_schedule record
  | fetchReady now =>
    exact follows_removal (fun _ => rfl) (fun _ => rfl) (fun _ => rfl) (fun store keyed => keyed_foldl_erase _ keyed)
      fun store => ids_foldl_erase _ store.delays
  | removeScheduled messageId =>
    exact follows_removal (fun _ => rfl) (fun _ => rfl) (fun _ => rfl) (fun store keyed => keyed_erase keyed messageId)
      fun store => ids_erase store.delays messageId
  | saveWorkerRegistry registry =>
    apply follows_guard
    · exact fun store numbered => ⟨numbered.records, numbered.delays, numbered.distinct, numbered.counted⟩
    · intro data other _ apart
      cases other with
      | workerRegistry => exact absurd rfl apart
      | records | delays => rfl
      | idCounter => exact ⟨rfl, Subset.refl _⟩

end

theorem numbered_empty : Numbered .empty where
  records _ _ found := by cases found
  delays _ _ found := by cases found
  distinct := nodup_nil
  counted _ member := by cases member

structure Consistent (clones : WalClones) : Prop where
  sound : Sound rules clones.system
  file : ∀ store ∈ clones.file, Numbered store

theorem consistent_idle {store file} (numbered : Numbered store) (saved : ∀ store ∈ file, Numbered store) :
    Consistent (.idle store file) where
  sound := .init ⟨numbered, nofun⟩
  file := saved

theorem Consistent.step {clones next event} (consistent : Consistent clones) (stepped : clones.step event = some next) :
    Consistent next := by
  cases event with
  | call method =>
    cases stepped
    exact ⟨consistent.sound.spawn (follows_call method), consistent.file⟩
  | step task =>
    obtain ⟨system, moved, rfl⟩ := map_eq_some_iff.mp stepped
    exact ⟨consistent.sound.step moved, consistent.file⟩
  | written index =>
    obtain ⟨snapshot, found, rfl⟩ := map_eq_some_iff.mp stepped
    obtain ⟨numbered, snapshots⟩ := consistent.sound.invariant
    refine ⟨consistent.sound.adjust ⟨numbered, fun other member => ?_⟩ fun lock => rules.refl lock _, fun store saved => ?_⟩
    · exact snapshots other (mem_of_mem_eraseIdx member)
    · cases saved
      exact snapshots snapshot (mem_of_getElem? found)
  | restart =>
    cases stepped
    apply consistent_idle _ consistent.file
    unfold PersistentWal.new
    cases saved : clones.file with
    | none => exact numbered_empty
    | some store => exact consistent.file store saved

def flushAndReopen : List CloneEvent := .call .flush :: List.replicate 8 (.step 0) ++ [.written 0, .restart]

/-- In every run of calls on the clones, with restarts from the file, the numbers are
distinct and counted; and a flush alone saves what `new` then finds. -/
theorem numbers_unique {events : List CloneEvent} {clones : WalClones} (ran : run WalClones.step {} events = some clones) :
    Numbered clones.system.data.store ∧
      ∀ store file, run WalClones.step (.idle store file) flushAndReopen = some (.idle store (some store)) := by
  have consistent : Consistent clones :=
    run_preserves Consistent (fun consistent stepped => consistent.step stepped) (consistent_idle numbered_empty fun _ saved => (by cases saved)) ran
  exact ⟨consistent.sound.invariant.1, fun store file => rfl⟩

private def order (id : String) : WalRecord := WalRecord.fromMsg (EMessage.new id 0 "orders" [] .standard none)

/-- A flush that has read the records keeps the append waiting which has counted up; the
file is that of an earlier flush, and after the restart the number is given again. -/
private def overtaken : List CloneEvent :=
  [.call (.append (order "a")), .step 0, .step 0, .step 0, .step 0, .call .flush, .step 1, .step 1, .step 1, .step 1, .step 1,
    .step 1, .step 1, .step 1, .written 0, .call .flush, .step 2, .call (.append (order "b")), .step 3, .step 3, .restart,
    .call (.append (order "c")), .step 0, .step 0, .step 0, .step 0]

theorem overtaken_append_numbered : ∃ clones, run WalClones.step {} overtaken = some clones ∧
    numbers clones.system.data.store = [2, 1] ∧ Numbered clones.system.data.store := by
  have counted : (run WalClones.step {} overtaken).map (fun clones => numbers clones.system.data.store) = some [2, 1] := by
    decide +kernel
  obtain ⟨clones, ran, list⟩ := map_eq_some_iff.mp counted
  exact ⟨clones, ran, list, (numbers_unique ran).1⟩

end EventBase.Proofs.RecordNumbers
