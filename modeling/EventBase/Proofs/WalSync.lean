import EventBase.Proofs.WalRecords

/-! Status reports that reach the handler out of order: the one handled last decides. -/

namespace EventBase.Proofs.WalSync
open Foundations WalRecords List Option WalSyncHandler

section
variable (decode : List UInt8 → Option WalSyncMessage) (messageId : String)

def updateOf (call : EMessage × Bool) : Option WalSyncMessage :=
  (decode call.1.payload).filter (fun sync => sync.messageId = messageId)

def updatesOf (calls : List (EMessage × Bool)) : List WalSyncMessage := calls.filterMap (updateOf decode messageId)

private theorem handler_status (handle : PersistentHandle) (call : EMessage × Bool)
    (present : messageId ∈ handle.store.records) :
    statusIn (handler decode call.2 handle call.1).1.store.records messageId =
      ((updateOf decode messageId call).map WalSyncMessage.status).or (statusIn handle.store.records messageId) := by
  unfold handler updateOf
  cases decode call.1.payload with
  | none => rfl
  | some sync =>
    simp only [persistent_records, statusIn_onRecords _ present, written, Option.filter]
    by_cases same : sync.messageId = messageId <;> simp [same]

private theorem handler_keeps (handle : PersistentHandle) (call : EMessage × Bool)
    (present : messageId ∈ handle.store.records) :
    messageId ∈ (handler decode call.2 handle call.1).1.store.records := by
  unfold handler
  cases decode call.1.payload with
  | none => exact present
  | some sync =>
    simp only [persistent_records]
    exact mem_onRecords _ present

theorem handleAll_status (handle : PersistentHandle) (calls : List (EMessage × Bool))
    (present : messageId ∈ handle.store.records) :
    statusIn (handleAll decode handle calls).store.records messageId =
      ((updatesOf decode messageId calls).getLast?.map WalSyncMessage.status).or
        (statusIn handle.store.records messageId) := by
  have last := foldl_reads_last
    (fun handle (call : EMessage × Bool) => (handler decode call.2 handle call.1).1)
    (fun handle => statusIn handle.store.records messageId)
    (fun call => (updateOf decode messageId call).map WalSyncMessage.status)
    (fun handle => messageId ∈ handle.store.records) (handler_keeps decode messageId)
    (handler_status decode messageId) calls present
  rw [handleAll, last, updatesOf, ← getLast?_map, map_filterMap]

end

/-- The record of a message ends with the status emitted last exactly when the
message handled last carries that status; timestamps play no part. -/
theorem converges_iff_last_handled (decode : List UInt8 → Option WalSyncMessage) (handle : PersistentHandle)
    (messageId : String) (emitted : List WalSyncMessage) (last : WalSyncMessage) (calls : List (EMessage × Bool))
    (present : messageId ∈ handle.store.records) (final : emitted.getLast? = some last)
    (delivered : (updatesOf decode messageId calls).Perm emitted) :
    statusIn (WalSyncHandler.handleAll decode handle calls).store.records messageId = some last.status ↔
      (updatesOf decode messageId calls).getLast?.map WalSyncMessage.status = some last.status := by
  rw [handleAll_status decode messageId handle calls present]
  have handled : (updatesOf decode messageId calls).getLast? ≠ none := by
    intro none
    rw [getLast?_eq_none_iff.mp none, nil_perm] at delivered
    simp [delivered] at final
  obtain ⟨sync, found⟩ := ne_none_iff_exists'.mp handled
  simp only [found, map_some, some_or]

section

def report (status : WalRecordState) (second : Nat) : WalSyncMessage where
  messageId := "m"
  topic := "t"
  workerId := "w"
  status := status
  attempts := 0
  lastAttemptAt := second * 1000000000
  error := none
  timestamp := second * 1000000000

def reportCodec (bytes : List UInt8) : Option WalSyncMessage :=
  if bytes = [1, 109, 1, 116, 1, 119, 1, 0, 1, 0, 0, 1, 0] then some (report .processing 1)
  else if bytes = [1, 109, 1, 116, 1, 119, 2, 0, 2, 0, 0, 2, 0] then some (report .complete 2)
  else none

def processingCall : EMessage × Bool :=
  (EMessage.new "a" 0 systemTopicWalSync [1, 109, 1, 116, 1, 119, 1, 0, 1, 0, 0, 1, 0] .standard none, true)

def completeCall : EMessage × Bool :=
  (EMessage.new "b" 0 systemTopicWalSync [1, 109, 1, 116, 1, 119, 2, 0, 2, 0, 0, 2, 0] .standard none, true)

def openedHandle : PersistentHandle where
  store := WalStore.empty.append (WalRecord.fromMsg (EMessage.new "m" 0 "t" [] .standard none))
  file := none

end

theorem handled_in_order_converges :
    statusIn (WalSyncHandler.handleAll reportCodec openedHandle [processingCall, completeCall]).store.records "m" =
      some .complete :=
  (converges_iff_last_handled reportCodec openedHandle "m" [report .processing 1, report .complete 2]
    (report .complete 2) [processingCall, completeCall] (by decide) rfl (by decide)).mpr (by decide)

/-- The Complete report overtakes the Processing report of the same worker. -/
theorem handled_out_of_order_diverges :
    (updatesOf reportCodec "m" [completeCall, processingCall]).Perm [report .processing 1, report .complete 2] ∧
      "m" ∈ openedHandle.store.records ∧
      (report .processing 1).workerId = (report .complete 2).workerId ∧
      (report .processing 1).timestamp ≤ (report .complete 2).timestamp ∧
      statusIn (WalSyncHandler.handleAll reportCodec openedHandle [completeCall, processingCall]).store.records "m" ≠
        some (report .complete 2).status := by
  decide

end EventBase.Proofs.WalSync
