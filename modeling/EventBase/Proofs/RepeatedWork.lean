import EventBase.Proofs.OutstandingCopies
import EventBase.Proofs.RecoveryRuns

/-! A replay repeats finished work exactly for broadcasts: their copies are reported under ids of
their own, so the record that was appended stays pending. -/

namespace EventBase.Proofs.RepeatedWork
open Foundations LoggedWork OutstandingCopies RecoveryRuns RecoverySteps TaskLogic List Option TopicRouter

theorem mem_replayPending {store : DelayStore} {record : WalRecord} :
    record ∈ store.replayPending ↔ (∃ id, store.records.lookup id = some record) ∧ record.status = .pending := by
  cases store with
  | inProcess store =>
    simp only [DelayStore.replayPending, WalStore.replayPending, mem_filter, mem_values_iff, decide_eq_true_eq, DelayStore.records]
  | redis store =>
    simp only [DelayStore.replayPending, RedisWal.replayPending, mem_mergeSort, mem_filter, mem_values_iff,
      decide_eq_true_eq, DelayStore.records]

def SentAs (message other : EMessage) : Prop :=
  other.topic = message.topic ∧ (other.id = message.id ∨ ∃ name, other.id = message.id ++ "-" ++ name)

theorem id_of_copies {message origin other} (sized : message.id.length = origin.id.length) (copy : CopyOf message other)
    (sent : SentAs origin other) : message.id = origin.id := by
  have dash : "-".length = 1 := rfl
  obtain ⟨_, same | derived⟩ := copy
  · obtain ⟨_, also | ⟨name, longer⟩⟩ := sent
    · exact same.symm.trans also
    · have lengths := congrArg String.length (same.symm.trans longer)
      simp only [String.length_append] at lengths
      omega
  · have shorter : message.id.toList <+: other.id.toList := by
      refine List.IsPrefix.trans ?_ derived
      rw [String.toList_append]
      exact prefix_append _ _
    have within : origin.id.toList <+: other.id.toList := by
      obtain ⟨_, also | ⟨name, longer⟩⟩ := sent
      · rw [also]
      · rw [longer, String.toList_append, String.toList_append, append_assoc]
        exact prefix_append _ _
    have lengths : message.id.toList.length = origin.id.toList.length := sized
    have part : message.id.toList <+: origin.id.toList := prefix_of_prefix_length_le shorter within lengths.le
    exact String.toList_inj.mp (part.eq_of_length lengths)

section
variable {env : Env}

theorem send_sentAs (origin : EMessage) {other} (same : other.id = origin.id ∧ other.topic = origin.topic) :
    EmitsOnly (fun effect => ∀ handed ∈ effect.handed, SentAs origin handed) (send env other.topic other none none) := by
  refine .send env (fun _ => ?_) (fun _ _ info _ => ?_) fun _ _ => ?_
  · intro handed named
    obtain rfl := mem_some.mp named
    exact ⟨same.2, .inl same.1⟩
  · intro handed named
    obtain rfl := mem_some.mp named
    exact ⟨same.2, .inr ⟨info.workerName, by rw [← same.1]; rfl⟩⟩
  · intro handed named
    obtain rfl := mem_some.mp named
    exact ⟨same.2, .inl same.1⟩

theorem replayRecord_sentAs (summary : ReplaySummary) (record : WalRecord) :
    EmitsOnly (fun effect => ∀ handed ∈ effect.handed, SentAs record.message handed)
      (replayRecord env summary record) := by
  apply replayRecord_only
  · intro handed named
    obtain rfl := mem_some.mp named
    exact ⟨rfl, .inl rfl⟩
  · exact @send_sentAs env record.message { record.message with deliverAt := none } ⟨rfl, rfl⟩

theorem replayRecords_sentAs (records : List WalRecord) (summary : ReplaySummary) :
    EmitsOnly (fun effect => ∀ handed ∈ effect.handed, ∃ record ∈ records, SentAs record.message handed)
      (records.foldlM (replayRecord env) summary) := by
  induction records generalizing summary with
  | nil => exact .pure summary
  | cons record rest ih =>
    rw [foldlM_cons]
    refine EmitsOnly.bind (Emits.weaken (replayRecord_sentAs summary record) ?_) fun after => Emits.weaken (ih after) ?_
    · exact fun _ _ each effect member handed named => ⟨record, mem_cons_self, each effect member handed named⟩
    · intro _ _ each effect member handed named
      obtain ⟨later, listed, sent⟩ := each effect member handed named
      exact ⟨later, mem_cons_of_mem _ listed, sent⟩

theorem replay_sentAs (store : DelayStore) :
    EmitsOnly (fun effect => ∀ handed ∈ effect.handed, ∃ record ∈ store.replayPending, SentAs record.message handed)
      (replay env none store) := by
  refine .cond (fun _ => Emits.weaken (replayRecords_sentAs _ _) ?_) fun _ => .throw _
  intro _ _ each effect member handed named
  obtain ⟨record, listed, sent⟩ := each effect member handed named
  exact ⟨record, (mem_filter.mp listed).1, sent⟩

end

section
variable {registry : Table WorkerInfo} {clock : SystemTime} {message : EMessage}

theorem replayRecord_ok (summary : ReplaySummary) (record : WalRecord) :
    Emits (replayRecord (willing registry clock) summary record) fun _ result => ∃ after, result = .ok after := by
  refine .bind (isFuture_emits fun future => .cond (fun _ => ?_) fun _ => ?_)
  · exact .bind (schedule_emits _ (fun _ _ => .pure _ ⟨_, rfl⟩) fun _ _ refused => by cases refused)
  · have sent := @send_sentAs (willing registry clock) record.message { record.message with deliverAt := none } ⟨rfl, rfl⟩
    refine .recover (.bind (Emits.weaken sent ?_))
    rintro added (error | value) _
    · exact ⟨_, rfl⟩
    · exact .pure _ ⟨_, rfl⟩

theorem replayRecord_broadcast {record} (broadcast : record.message.deliveryMode = .broadcast) {info}
    (listed : info ∈ getWorkers registry record.message.topic) (summary : ReplaySummary) :
    Emits (replayRecord (willing registry clock) summary record) fun added result =>
      (∃ after, result = .ok after) ∧ ∃ effect ∈ added, ∃ other ∈ effect.handed, CopyOf record.message other := by
  refine .bind (isFuture_emits fun future => .cond (fun _ => ?_) fun _ => ?_)
  · refine .bind (schedule_emits _ (fun _ _ => .pure _ ⟨⟨_, rfl⟩, ?_⟩) fun _ _ refused => by cases refused)
    exact ⟨.schedule (WalRecord.fromMsg record.message), mem_singleton_self _, record.message, rfl, rfl, .inl rfl⟩
  · have copies : Emits (send (willing registry clock) record.message.topic
        { record.message with deliverAt := none } none none) fun added result =>
          result = .ok () ∧ .publish (broadcastCopy { record.message with deliverAt := none } info) ∈ added := by
      unfold send
      refine .cond (fun delayed => by cases delayed) fun _ => .cond (fun _ => ?_) fun mode => absurd broadcast mode
      refine .cond (fun worker => by cases worker) fun _ => (emitCopies_all _ _).weaken ?_
      rintro _ _ ⟨rfl, rfl⟩
      exact ⟨rfl, mem_map_of_mem (mem_map_of_mem listed)⟩
    refine .recover (.bind (copies.weaken ?_))
    rintro added _ ⟨rfl, published⟩
    have copy : CopyOf record.message (broadcastCopy { record.message with deliverAt := none } info) := by
      refine ⟨rfl, .inr ?_⟩
      simp only [broadcastCopy, String.toList_append]
      exact prefix_append _ _
    refine .pure _ ⟨⟨_, rfl⟩, .publish (broadcastCopy { record.message with deliverAt := none } info), ?_, _, rfl, copy⟩
    simpa using published

theorem replay_reaches {records : List WalRecord} {record : WalRecord} (member : record ∈ records)
    (broadcast : record.message.deliveryMode = .broadcast) {info}
    (listed : info ∈ getWorkers registry record.message.topic) (summary : ReplaySummary) :
    Emits (records.foldlM (replayRecord (willing registry clock)) summary) fun added _ =>
      ∃ effect ∈ added, ∃ other ∈ effect.handed, CopyOf record.message other := by
  induction records generalizing summary with
  | nil => cases member
  | cons head rest ih =>
    rw [foldlM_cons]
    obtain rfl | later := mem_cons.mp member
    · refine .bind ((replayRecord_broadcast broadcast listed summary).weaken ?_)
      rintro added _ ⟨⟨after, rfl⟩, effect, among, handed⟩
      refine Emits.weaken (replayRecords_sentAs rest after) fun _ _ _ => ?_
      exact ⟨effect, mem_append_left _ among, handed⟩
    · refine .bind ((replayRecord_ok summary head).weaken ?_)
      rintro added _ ⟨after, rfl⟩
      refine (ih later after).weaken ?_
      rintro more _ ⟨effect, among, handed⟩
      exact ⟨effect, mem_append_right _ among, handed⟩

end

theorem settled_of_finished {width state} (kept : Kept width state) {message}
    (logged : message ∈ state.logged) (finished : Finished state message) : ¬ Outstanding state message := by
  obtain ⟨delivered, undelayed, unfetched, through⟩ := finished
  rintro (⟨copy, member, waiting, id, topic⟩ | ⟨record, found⟩ | ⟨record, member, id⟩ | ⟨call, member, ⟨id, topic⟩, unsettled⟩)
  · exact Bool.noConfusion (waiting.symm.trans (delivered copy member ⟨topic, .inl id⟩))
  · obtain ⟨named, delayed⟩ := kept.delayed _ record found
    exact undelayed record (mem_values_iff.mpr ⟨_, found⟩) ⟨(kept.delayed_logged delayed logged named.symm).2, .inl named.symm⟩
  · have delayed := kept.fetched record member
    exact unfetched record member ⟨(kept.delayed_logged delayed logged id).2, .inl id⟩
  · obtain ⟨nothing, concluded⟩ := through call member ⟨topic, .inl id⟩
    obtain failed | ⟨effect, left, _⟩ := unsettled
    · exact Bool.noConfusion (failed.symm.trans concluded)
    · rw [nothing] at left
      cases left

/-- In every sound run, a message that is finished is repeated by no replay exactly when it was not
a broadcast. -/
theorem finished_repeats_iff {width : Nat} {wal : DelayStore} {events : List Event} {state : State} (blank : Blank wal)
    (sound : Along (step width) Sound { wal } events) (ran : run (step width) { wal } events = some state) {message : EMessage}
    (logged : message ∈ state.logged) (finished : Finished state message) :
    (∀ env, ¬ Repeats env state.wal message) ↔ message.deliveryMode ≠ .broadcast := by
  have kept : Kept width state := Kept.run blank sound ran
  constructor
  · intro safe broadcast
    obtain ⟨record, found, pending⟩ := map_eq_some_iff.mp (kept.broadcast message logged broadcast)
    obtain ⟨known, named⟩ := kept.records message.id record found
    obtain rfl := kept.distinct message logged record.message known named
    have member : record ∈ state.wal.replayPending.filter (replayable none) :=
      mem_filter.mpr ⟨mem_replayPending.mpr ⟨⟨_, found⟩, pending⟩, rfl⟩
    have listed : (⟨"worker", record.message.topic, 0⟩ : WorkerInfo) ∈
        getWorkers (AList.singleton "worker" ⟨"worker", record.message.topic, 0⟩) record.message.topic := by
      simp [getWorkers, Table.values, AList.singleton]
    have reached := (@replay_reaches _ 0 _ record member broadcast _ listed {}).outcome
    exact safe (willing _ 0) reached
  · rintro single env ⟨effect, emitted, other, handed, copy⟩
    obtain ⟨record, member, sent⟩ := (replay_sentAs state.wal).outcome effect emitted other handed
    obtain ⟨⟨id, found⟩, pending⟩ := mem_replayPending.mp member
    obtain ⟨known, named⟩ := kept.records id record found
    have sized : message.id.length = record.message.id.length :=
      (kept.sized message logged).trans (kept.sized record.message known).symm
    have same : message.id = id := (id_of_copies sized copy sent).trans named.symm
    have status : state.wal.status message.id = some .pending := by rw [same, DelayStore.status, found, map_some, pending]
    exact settled_of_finished kept logged finished (kept.pending message logged single status)

private def crew : Table WorkerInfo := AList.singleton "cook" ⟨"cook", "orders", 0⟩

private def kitchen : Env := { nodeType := .host, registry := crew }

private def order (mode : DeliveryMode) : EMessage := EMessage.new "m" 0 "orders" [] mode none

private def cook : Worker := { topic := "orders", name := "cook" }

/-- The order is logged and sent, the cook takes it up and acknowledges it. -/
private def served (mode : DeliveryMode) (copy : EMessage) : List Event :=
  [.submit (order mode) kitchen none none, .emit 0,
    .take 0 (some "cook") 0 cook kitchen { answer := .ack, message := copy }] ++ List.replicate 4 (.emit 1)

/-- The order that the cook has finished is not sent again. -/
theorem served_order_left :
    ∃ state ∈ run (step 1) { wal := .redis .empty } (served .standard (order .standard)),
      state.wal.status "m" = some .complete ∧ ∀ env, ¬ Repeats env state.wal (order .standard) := by
  obtain ⟨state, ran, complete, logged, finished⟩ :
      ∃ state ∈ run (step 1) { wal := .redis .empty } (served .standard (order .standard)),
        state.wal.status "m" = some .complete ∧ order .standard ∈ state.logged ∧ Finished state (order .standard) := by
    decide +kernel
  have sound : Along (step 1) Sound { wal := .redis .empty } (served .standard (order .standard)) := by decide +kernel
  refine ⟨state, ran, complete, ?_⟩
  exact (finished_repeats_iff ⟨rfl, rfl⟩ sound ran logged finished).mpr DeliveryMode.noConfusion

/-- The cook acknowledges the only copy of a broadcast, and the replay sends it again. -/
theorem served_broadcast_repeated :
    ∃ state ∈ run (step 1) { wal := .inProcess .empty }
        (served .broadcast (broadcastCopy (order .broadcast) ⟨"cook", "orders", 0⟩)),
      Finished state (order .broadcast) ∧ Repeats kitchen state.wal (order .broadcast) := by
  decide +kernel

end EventBase.Proofs.RepeatedWork
