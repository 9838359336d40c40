import EventBase.Proofs.WalRecords
import EventBase.Worker

/-! What replay finds after a crash: a message is sent again unless the last mark of its
record says that it was being processed. -/

namespace EventBase.Proofs.CrashRecovery
open Foundations WalRecords

structure ProcessRun where
  env : Env
  worker : Worker
  pipeline : PipelineRun
  message : EMessage

def mark? (messageId : String) : Effect → Option WalRecordState
  | .walSync sync => if sync.messageId = messageId then some sync.status else none
  | _ => none

def ProcessRun.marks (messageId : String) (call : ProcessRun) : List WalRecordState :=
  (call.worker.processMsg call.env call.pipeline call.message).outcome.1.filterMap (mark? messageId)

/-- The calls made on a message until the crash, and how many of their marks had
been applied by then. -/
structure Crash where
  calls : List ProcessRun
  applied : Nat

def Crash.marks (messageId : String) (crash : Crash) : List WalRecordState :=
  (crash.calls.flatMap (ProcessRun.marks messageId)).take crash.applied

/-- The log of a node that appends a message before it is sent and applies its
marks in emission order, among any other calls. -/
inductive Recorded (messageId : String) (crash : Crash) : List WalOp → Prop
  | intro (before after : List WalOp) (message : EMessage) (same : message.id = messageId)
      (marks : after.filterMap (written messageId) = crash.marks messageId) :
      Recorded messageId crash (before ++ .append (WalRecord.fromMsg message) :: after)

def persistentReplay (ops : List WalOp) : List WalRecord :=
  (PersistentWal.new (PersistentWal.flush (ops.foldl PersistentWal.apply WalStore.empty))).replayPending

def redisReplay (ops : List WalOp) : List WalRecord := (ops.foldl RedisWal.apply RedisWal.empty).replayPending

section
variable (σ : Type) (apply : σ → WalOp → σ) (records : σ → Table WalRecord) (counter : σ → Nat)

private theorem status_after_crash
    (backend : ∀ store op, records (apply store op) = onRecords (counter store) (records store) op)
    {messageId crash ops} (recorded : Recorded messageId crash ops) (store : σ) :
    statusIn (records (ops.foldl apply store)) messageId =
      some ((crash.marks messageId).getLast?.getD .pending) := by
  obtain ⟨before, after, message, rfl, marks⟩ := recorded
  rw [List.foldl_append, List.foldl_cons]
  have appended : records (apply (before.foldl apply store) (.append (WalRecord.fromMsg message))) =
      (records (before.foldl apply store)).insert message.id
        { WalRecord.fromMsg message with recordId := counter (before.foldl apply store) + 1 } := backend _ _
  have present : message.id ∈ records (apply (before.foldl apply store) (.append (WalRecord.fromMsg message))) := by
    rw [appended]
    exact (AList.mem_insert _).mpr (.inl rfl)
  have initial : statusIn (records (apply (before.foldl apply store) (.append (WalRecord.fromMsg message)))) message.id =
      some .pending := by
    rw [appended, statusIn, AList.lookup_insert]
    rfl
  rw [statusIn_foldl σ apply records counter backend after _ present, marks, initial]
  cases (crash.marks message.id).getLast? <;> rfl

private theorem pending_after_crash
    (backend : ∀ store op, records (apply store op) = onRecords (counter store) (records store) op)
    {messageId crash ops} (recorded : Recorded messageId crash ops) (store : σ)
    (unfinished : ∀ status ∈ crash.marks messageId, status ≠ .complete ∧ status ≠ .failed) :
    statusIn (records (ops.foldl apply store)) messageId = some .pending ↔
      (crash.marks messageId).getLast? ≠ some .processing := by
  rw [status_after_crash σ apply records counter backend recorded store]
  cases last : (crash.marks messageId).getLast? with
  | none => simp
  | some status =>
    have stillOpen := unfinished status (List.mem_of_getLast? last)
    cases status <;> simp_all

end

private theorem mem_redisReplay {messageId ops} :
    messageId ∈ (redisReplay ops).map (·.message.id) ↔
      messageId ∈ ((Table.values (ops.foldl RedisWal.apply RedisWal.empty).records).filter
        (fun record => record.status = .pending)).map (·.message.id) :=
  (List.Perm.map _ (List.mergeSort_perm _ _)).mem_iff

/-- A message the log has not seen finished is replayed after the crash exactly
when the crash did not leave it marked Processing. -/
theorem replayed_iff_not_processing (messageId : String) (crash : Crash) (ops : List WalOp)
    (recorded : Recorded messageId crash ops)
    (unfinished : ∀ status ∈ crash.marks messageId, status ≠ .complete ∧ status ≠ .failed) :
    (messageId ∈ (persistentReplay ops).map (·.message.id) ↔
        (crash.marks messageId).getLast? ≠ some .processing) ∧
      (messageId ∈ (redisReplay ops).map (·.message.id) ↔
        (crash.marks messageId).getLast? ≠ some .processing) := by
  have bare : Keyed ∅ := fun _ _ present => by simp at present
  constructor
  · have keyed := keyed_foldl _ _ WalStore.records _ persistent_records ops WalStore.empty bare
    rw [← pending_after_crash _ _ _ _ persistent_records recorded WalStore.empty unfinished]
    exact mem_pending_iff keyed
  · have keyed := keyed_foldl _ _ RedisWal.records _ redis_records ops RedisWal.empty bare
    rw [← pending_after_crash _ _ _ _ redis_records recorded RedisWal.empty unfinished, mem_redisReplay]
    exact mem_pending_iff keyed

section

def task : EMessage := EMessage.new "m" 0 "t" [] .standard none

def acknowledged : ProcessRun where
  env := { nodeType := .host, registry := ∅ }
  worker := { topic := "t", name := "w" }
  pipeline := { answer := .ack, message := task }
  message := task

def retried : ProcessRun := { acknowledged with pipeline := { answer := .noAck none 3, message := task } }

def retriedLog : List WalOp :=
  [.append (WalRecord.fromMsg task), .updateState "m" .processing, .updateState "m" .pending]

end

theorem retried_task_replayed :
    Crash.marks "m" ⟨[retried, acknowledged], 2⟩ = [.processing, .pending] ∧
      "m" ∈ (persistentReplay retriedLog).map (·.message.id) ∧ "m" ∈ (redisReplay retriedLog).map (·.message.id) := by
  have replayed := replayed_iff_not_processing "m" ⟨[retried, acknowledged], 2⟩ retriedLog
    (.intro [] [.updateState "m" .processing, .updateState "m" .pending] task rfl (by decide)) (by decide)
  exact ⟨by decide, replayed.1.mpr (by decide), replayed.2.mpr (by decide)⟩

/-- The node crashes in the handler, after the Processing mark was applied. -/
theorem processing_task_forgotten :
    Recorded "m" ⟨[acknowledged], 1⟩ [.append (WalRecord.fromMsg task), .updateState "m" .processing] ∧
      (∀ status ∈ Crash.marks "m" ⟨[acknowledged], 1⟩, status ≠ .complete ∧ status ≠ .failed) ∧
      "m" ∉ (persistentReplay [.append (WalRecord.fromMsg task), .updateState "m" .processing]).map (·.message.id) ∧
      "m" ∉ (redisReplay [.append (WalRecord.fromMsg task), .updateState "m" .processing]).map (·.message.id) := by
  refine ⟨.intro [] [.updateState "m" .processing] task rfl ?_, ?_, ?_, ?_⟩
  · decide
  · decide
  · decide
  · rw [mem_redisReplay]
    decide

end EventBase.Proofs.CrashRecovery
