import EventBase.Foundations.AssocList
import EventBase.Foundations.Run
import EventBase.SystemHandlers

/-! What a sequence of WAL calls leaves in the record table. The file-backed and
the Redis backend change that table in the same way. -/

namespace EventBase.Proofs.WalRecords
open Foundations AList

def statusIn (records : Table WalRecord) (messageId : String) : Option WalRecordState :=
  (records.lookup messageId).map WalRecord.status

def onRecords (counter : Nat) (records : Table WalRecord) : WalOp → Table WalRecord
  | .append record => records.insert record.message.id { record with recordId := counter + 1 }
  | .updateState messageId status =>
    match records.lookup messageId with
    | some record => Table.setStatus records messageId record status
    | none => records
  | _ => records

def written (messageId : String) : WalOp → Option WalRecordState
  | .append record => if record.message.id = messageId then some record.status else none
  | .updateState target status => if target = messageId then some status else none
  | _ => none

theorem persistent_records (store : WalStore) (op : WalOp) :
    (PersistentWal.apply store op).records = onRecords store.idCounter store.records op := by
  cases op with
  | updateState messageId status =>
    simp only [PersistentWal.apply, PersistentWal.updateState, onRecords]
    cases store.records.lookup messageId <;> rfl
  | _ => rfl

private theorem claimDue_records (state : List WalRecord × RedisWal) (messageId : String) :
    (RedisWal.claimDue state messageId).2.records = state.2.records := by
  simp only [RedisWal.claimDue]
  split <;> rfl

private theorem foldl_claimDue_records (due : List String) (state : List WalRecord × RedisWal) :
    (due.foldl RedisWal.claimDue state).2.records = state.2.records := by
  induction due generalizing state with
  | nil => rfl
  | cons messageId rest ih => rw [List.foldl_cons, ih, claimDue_records]

theorem redis_records (store : RedisWal) (op : WalOp) :
    (store.apply op).records = onRecords store.idCounter store.records op := by
  cases op with
  | updateState messageId status =>
    simp only [RedisWal.apply, RedisWal.updateState, onRecords]
    cases store.records.lookup messageId <;> rfl
  | fetchReady now => exact foldl_claimDue_records _ _
  | _ => rfl

section
variable {counter : Nat} {records : Table WalRecord} {messageId : String}

theorem mem_onRecords (op : WalOp) (present : messageId ∈ records) : messageId ∈ onRecords counter records op := by
  cases op with
  | append record => exact (mem_insert _).mpr (.inr present)
  | updateState target status =>
    simp only [onRecords]
    split
    · exact (mem_insert _).mpr (.inr present)
    · exact present
  | _ => exact present

theorem statusIn_onRecords (op : WalOp) (present : messageId ∈ records) :
    statusIn (onRecords counter records op) messageId = (written messageId op).or (statusIn records messageId) := by
  cases op with
  | append record =>
    by_cases same : record.message.id = messageId
    · subst same
      simp [statusIn, onRecords, written]
    · simp [statusIn, onRecords, written, lookup_insert_ne (Ne.symm same), same]
  | updateState target status =>
    simp only [onRecords]
    cases found : records.lookup target with
    | none =>
      have other : target ≠ messageId := by
        rintro rfl
        exact lookup_eq_none.mp found present
      simp [written, other]
    | some record =>
      by_cases same : target = messageId
      · subst same
        simp [statusIn, Table.setStatus, written]
      · simp [statusIn, Table.setStatus, written, lookup_insert_ne (Ne.symm same), same]
  | _ => rfl

def Keyed (records : Table WalRecord) : Prop :=
  ∀ messageId record, records.lookup messageId = some record → record.message.id = messageId

theorem Keyed.insert {record} (keyed : Keyed records) (key : record.message.id = messageId) :
    Keyed (records.insert messageId record) := by
  intro other found present
  obtain ⟨rfl, rfl⟩ | ⟨-, stored⟩ := lookup_insert_cases present
  · exact key
  · exact keyed other found stored

theorem Keyed.onRecords (keyed : Keyed records) (op : WalOp) : Keyed (onRecords counter records op) := by
  cases op with
  | append record => exact keyed.insert rfl
  | updateState target status =>
    simp only [WalRecords.onRecords]
    cases found : records.lookup target with
    | none => exact keyed
    | some record => exact keyed.insert (keyed target record found)
  | _ => exact keyed

theorem mem_pending_iff (keyed : Keyed records) :
    messageId ∈ ((Table.values records).filter (fun record => record.status = .pending)).map (·.message.id) ↔
      statusIn records messageId = some .pending := by
  simp only [List.mem_map, List.mem_filter, decide_eq_true_eq, Table.values, statusIn, Option.map_eq_some_iff]
  constructor
  · rintro ⟨record, ⟨⟨entry, member, rfl⟩, pending⟩, rfl⟩
    have found : records.lookup entry.1 = some entry.2 := mem_lookup_iff.mpr member
    rw [keyed _ _ found]
    exact ⟨_, found, pending⟩
  · rintro ⟨record, found, pending⟩
    exact ⟨record, ⟨⟨_, mem_lookup_iff.mp found, rfl⟩, pending⟩, keyed _ _ found⟩

end

section
variable (σ : Type) (apply : σ → WalOp → σ) (records : σ → Table WalRecord) (counter : σ → Nat)

theorem statusIn_foldl (backend : ∀ store op, records (apply store op) = onRecords (counter store) (records store) op)
    (ops : List WalOp) (store : σ) {messageId} (present : messageId ∈ records store) :
    statusIn (records (ops.foldl apply store)) messageId =
      (ops.filterMap (written messageId)).getLast?.or (statusIn (records store) messageId) := by
  refine foldl_reads_last apply (fun store => statusIn (records store) messageId) (written messageId)
    (fun store => messageId ∈ records store) ?_ ?_ ops present
  · intro store op present
    rw [backend]
    exact mem_onRecords op present
  · intro store op present
    rw [backend]
    exact statusIn_onRecords op present

theorem keyed_foldl (backend : ∀ store op, records (apply store op) = onRecords (counter store) (records store) op)
    (ops : List WalOp) (store : σ) (keyed : Keyed (records store)) : Keyed (records (ops.foldl apply store)) := by
  induction ops generalizing store with
  | nil => exact keyed
  | cons op rest ih =>
    refine ih (apply store op) ?_
    rw [backend]
    exact keyed.onRecords op

end

end EventBase.Proofs.WalRecords
