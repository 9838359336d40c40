import EventBase.CrashedJourney
import EventBase.Proofs.RepeatedDelivery
import EventBase.Proofs.RepeatedWork

/-! The counters of a message travel in its copies, and a report carries none of them into
the WAL: after a crash the replay starts them over. -/

namespace EventBase.Proofs.LostProgress
open Foundations TaskLogic RecoverySteps RecoveryRuns RepeatedDelivery List AList TopicRouter

def isNoAck (handling : Handling) : Bool :=
  match handling.worker.status handling.run with
  | .noAck _ _ => true
  | .ack | .dead _ => false

def noAcks (handled : List Handling) : Nat := handled.countP isNoAck

structure Counts (msg : EMessage) (handled : List Handling) (copy : EMessage) : Prop where
  attempts : copy.attempts.toNat = msg.attempts.toNat + noAcks handled
  consumed : ∀ times, msg.deliveryMode = .repeated times → copy.consumedCount.toNat = msg.consumedCount.toNat + acks handled

def Unhurt (wal : DelayStore) (msg : EMessage) (handled : List Handling) : Prop :=
  wal.status msg.id ≠ some .pending ∨
    noAcks handled = 0 ∧ ∀ times, msg.deliveryMode = .repeated times → acks handled = 0

section
variable {backend : WalBackend} {placeholder : EMessage} {store : DelayStore} {msg : EMessage}

def Keeps (store : DelayStore) (msg : EMessage) : Prop :=
  ∃ record, store.records.lookup msg.id = some record ∧ record.message = msg

theorem keeps_append (store : DelayStore) (msg : EMessage) : Keeps (store.append (WalRecord.fromMsg msg)) msg := by
  cases store with
  | inProcess store => exact ⟨_, lookup_insert _, rfl⟩
  | redis store => exact ⟨_, lookup_insert _, rfl⟩

theorem Keeps.insert {records : Table WalRecord} {record : WalRecord} {messageId} {value : WalRecord}
    (found : records.lookup msg.id = some record) (same : record.message = msg)
    (kept : messageId = msg.id → value.message = msg) :
    ∃ after, (records.insert messageId value).lookup msg.id = some after ∧ after.message = msg := by
  by_cases here : messageId = msg.id
  · subst here
    exact ⟨value, lookup_insert _, kept rfl⟩
  · exact ⟨record, (lookup_insert_ne (Ne.symm here)).trans found, same⟩

theorem Keeps.updateState (keeps : Keeps store msg) (backend : WalBackend) (messageId : String) (status : WalRecordState)
    (placeholder : EMessage) : Keeps (store.updateState backend messageId status placeholder) msg := by
  obtain ⟨record, found, same⟩ := keeps
  have setStatus (records : Table WalRecord) (other : WalRecord) (stored : records.lookup messageId = some other)
      (held : records.lookup msg.id = some record) :
      ∃ after, (Table.setStatus records messageId other status).lookup msg.id = some after ∧ after.message = msg := by
    apply Keeps.insert held same
    rintro rfl
    cases stored.symm.trans held
    exact same
  cases store with
  | redis store =>
    simp only [DelayStore.updateState, RedisWal.apply, RedisWal.updateState, Keeps, DelayStore.records]
    cases stored : store.records.lookup messageId with
    | none => exact ⟨record, found, same⟩
    | some other => exact setStatus store.records other stored found
  | inProcess store =>
    cases backend with
    | memory =>
      simp only [DelayStore.updateState, WalBackend.updateState, MemoryWal.updateState, Keeps, DelayStore.records]
      cases stored : store.records.lookup messageId with
      | none =>
        apply Keeps.insert found same
        rintro rfl
        cases stored.symm.trans found
      | some other => exact setStatus store.records other stored found
    | persistent =>
      simp only [DelayStore.updateState, WalBackend.updateState, PersistentWal.apply, PersistentWal.updateState, Keeps,
        DelayStore.records]
      cases stored : store.records.lookup messageId with
      | none => exact ⟨record, found, same⟩
      | some other => exact setStatus store.records other stored found

theorem Keeps.report (keeps : Keeps store msg) (backend : WalBackend) (placeholder : EMessage) (effects : List Effect) :
    Keeps (store.report backend placeholder effects) msg := by
  induction effects generalizing store with
  | nil => exact keeps
  | cons effect rest ih =>
    cases effect with
    | walSync sync => exact ih (keeps.updateState backend sync.messageId sync.status placeholder)
    | audit | publish | requeue | schedule => exact ih keeps

theorem recovered_message (crashed : CrashedJourney msg) {record}
    (found : (crashed.recovered backend placeholder store).records.lookup msg.id = some record) : record.message = msg := by
  obtain ⟨kept, held, same⟩ := (keeps_append store msg).report backend placeholder (crashed.handled.flatMap Handling.effects)
  unfold CrashedJourney.recovered at found
  generalize (store.append (WalRecord.fromMsg msg)).report backend placeholder (crashed.handled.flatMap Handling.effects) = after
    at held found
  cases after with
  | redis after =>
    cases held.symm.trans found
    exact same
  | inProcess after =>
    cases backend with
    | memory => cases found
    | persistent =>
      cases held.symm.trans found
      exact same

end

section
variable {env : Env} {record : WalRecord}

theorem replayRecord_counters (summary : ReplaySummary) (record : WalRecord) :
    EmitsOnly (fun effect => ∀ copy ∈ effect.handed,
        copy.attempts = record.message.attempts ∧ copy.consumedCount = record.message.consumedCount)
      (replayRecord env summary record) := by
  apply replayRecord_only
  · rintro copy ⟨⟩
    exact ⟨rfl, rfl⟩
  · apply EmitsOnly.send
    · intro delayed
      cases delayed
    · rintro _ _ info _ copy ⟨⟩
      exact ⟨rfl, rfl⟩
    · rintro _ _ copy ⟨⟩
      exact ⟨rfl, rfl⟩

theorem reaches_deadline (record : WalRecord) : ∃ clock, record.inFuture clock = false := by
  unfold WalRecord.inFuture
  split
  · next deliverAt _ => exact ⟨deliverAt, decide_eq_false (lt_irrefl deliverAt)⟩
  · exact ⟨0, rfl⟩

theorem replayRecord_sends (record : WalRecord) :
    ∃ env copy, copy ∈ (replayRecord env {} record).outcome.1.filterMap Effect.handed := by
  obtain ⟨id, carries⟩ := carries_something record.message
  obtain ⟨registry, -, meets⟩ := meets_of_carries carries
  obtain ⟨clock, present⟩ := reaches_deadline record
  obtain ⟨⟨messages, published, covers⟩, -⟩ := (replayRecord_all registry present {}).outcome
  obtain ⟨copy, listed, -⟩ := mem_map.mp (covers id meets)
  refine ⟨willing registry clock, copy, ?_⟩
  rw [published]
  exact mem_filterMap.mpr ⟨.publish copy, mem_map_of_mem listed, rfl⟩

theorem resent_counters {wal messageId copy} (member : copy ∈ resent env wal messageId) :
    ∃ record, wal.records.lookup messageId = some record ∧ record.status = .pending ∧
      copy.attempts = record.message.attempts ∧ copy.consumedCount = record.message.consumedCount := by
  unfold resent at member
  split at member
  · next record found =>
    split at member
    · next pending =>
      obtain ⟨effect, listed, handed⟩ := mem_filterMap.mp member
      exact ⟨record, found, pending, Emits.outcome (replayRecord_counters {} record) effect listed copy handed⟩
    · cases member
  · cases member

theorem resent_pending {wal messageId} (pending : wal.status messageId = some .pending) :
    ∃ env copy, copy ∈ resent env wal messageId := by
  obtain ⟨record, found, status⟩ := Option.map_eq_some_iff.mp pending
  obtain ⟨env, copy, member⟩ := replayRecord_sends record
  refine ⟨env, copy, ?_⟩
  simp only [resent, found, status, if_true]
  exact member

end

/-- For every message and everything that happened to its copies before the crash: what
the replay hands on counts on from there if and only if there was nothing to count or
there is nothing to replay. -/
theorem progress_kept_iff (backend : WalBackend) (placeholder : EMessage) (wal : DelayStore) {msg : EMessage}
    (crashed : CrashedJourney msg) :
    (∀ env, ∀ copy ∈ TopicRouter.resent env (crashed.recovered backend placeholder wal) msg.id,
        Counts msg crashed.handled copy) ↔
      Unhurt (crashed.recovered backend placeholder wal) msg crashed.handled := by
  constructor
  · intro counts
    by_cases pending : (crashed.recovered backend placeholder wal).status msg.id = some .pending
    · obtain ⟨env, copy, member⟩ := resent_pending pending
      obtain ⟨record, found, -, attempts, consumed⟩ := resent_counters member
      have counted := counts env copy member
      rw [recovered_message crashed found] at attempts consumed
      refine .inr ⟨?_, fun times mode => ?_⟩
      · have total := counted.attempts
        rw [attempts] at total
        omega
      · have total := counted.consumed times mode
        rw [consumed] at total
        omega
    · exact .inl pending
  · intro unhurt env copy member
    obtain ⟨record, found, status, attempts, consumed⟩ := resent_counters member
    rw [recovered_message crashed found] at attempts consumed
    obtain settled | ⟨unanswered, unacknowledged⟩ := unhurt
    · refine absurd ?_ settled
      rw [DelayStore.status, found, Option.map_some, status]
    · refine ⟨?_, fun times mode => ?_⟩
      · rw [attempts, unanswered, Nat.add_zero]
      · rw [consumed, unacknowledged times mode, Nat.add_zero]

private def order : EMessage := EMessage.new "m" 0 "orders" [] .standard none

private def kitchen : Env := { nodeType := .host, registry := ∅ }

private def cook : Worker := { topic := "orders", name := "cook" }

/-- The cook takes the order from the queue, refuses it once, and the process crashes. -/
theorem refused_order_starts_over : ∃ crashed : CrashedJourney order, noAcks crashed.handled = 1 ∧
    TopicRouter.resent kitchen (crashed.recovered .persistent order (.inProcess .empty)) "m" = [order] ∧
      ¬ Counts order crashed.handled order := by
  obtain ⟨journey, ran, refused, resent⟩ : ∃ journey ∈
      run (Journey.step order.topic) (Journey.send kitchen order none none)
        [.receive 0 cook, .process 0 kitchen { answer := .noAck none 5, message := order }],
      noAcks journey.handled = 1 ∧
        resent kitchen ((((DelayStore.inProcess .empty).append (WalRecord.fromMsg order)).report .persistent order
          (journey.handled.flatMap Handling.effects)).restart .persistent) "m" = [order] := by decide +kernel
  refine ⟨⟨kitchen, none, none, _, journey, ran⟩, refused, resent, fun counts => ?_⟩
  have total : order.attempts.toNat = order.attempts.toNat + noAcks journey.handled := counts.attempts
  rw [refused] at total
  omega

end EventBase.Proofs.LostProgress
