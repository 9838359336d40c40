import EventBase.Metrics
import EventBase.Proofs.Accepted

/-! The audit records of one processing attempt, and the counters folded from them. Only
an acknowledgement of a message that is not repeated leaves a terminal record under the
worker's own topic. -/

namespace EventBase.Proofs.AuditTrail
open TaskLogic Accepted Worker MetricsAggregator

structure AuditEntry where
  messageId : String
  topic : String
  eventType : AuditEventType
  deriving DecidableEq

def record? : Effect → Option AuditRecord
  | .audit record => some record
  | _ => none

def entryOf (record : AuditRecord) : AuditEntry := ⟨record.messageId, record.topic, record.eventType⟩

def entry? (effect : Effect) : Option AuditEntry := (record? effect).map entryOf

def terminal (worker : Worker) (run : PipelineRun) : AuditEventType :=
  match worker.status run with
  | .ack => .processingCompleted
  | .noAck _ maxRetries => if maxRetries ≤ run.message.attempts + 1 then .deadLettered else .retry
  | .dead _ => .deadLettered

structure Attempt where
  env : Env
  worker : Worker
  run : PipelineRun
  message : EMessage

namespace Attempt
variable (attempt : Attempt)

def effects : List Effect := (attempt.worker.processMsg attempt.env attempt.run attempt.message).outcome.1

def records : List AuditRecord := attempt.effects.filterMap record?

/-- The sends of the attempt all succeed, and audit records reach a queue. -/
structure Accepted : Prop where
  sends : ∀ call mode, attempt.env.sends call mode = none
  audited : ∀ table, attempt.env.routes = some table → systemTopicAudit ∈ table

/-- One record for the start and one for the end, under the message's id and the worker's topic. -/
def Accounted : Prop :=
  attempt.records.map entryOf =
    [⟨attempt.message.id, attempt.worker.topic, .processingStarted⟩,
      ⟨attempt.message.id, attempt.worker.topic, terminal attempt.worker attempt.run⟩]

/-- The handler acknowledges a message of the worker's topic that is not repeated, the
pipeline leaves its id and topic alone, and the clock does not step back. -/
structure Plain : Prop where
  acknowledged : attempt.worker.status attempt.run = .ack
  single : ∀ times, attempt.run.message.deliveryMode ≠ .repeated times
  own : attempt.message.topic = attempt.worker.topic
  sameId : attempt.run.message.id = attempt.message.id
  sameTopic : attempt.run.message.topic = attempt.worker.topic
  clock : ClockAdvances attempt.env

end Attempt

section
variable {env : Env} {worker : Worker}

theorem entries_map (effects : List Effect) : (effects.filterMap record?).map entryOf = effects.filterMap entry? := by
  rw [List.map_filterMap]
  rfl

theorem auditMsg_shows (accepts : ∀ call mode, env.sends call mode = none)
    (audited : ∀ table, env.routes = some table → systemTopicAudit ∈ table) (msg : EMessage) (result : AuditResult)
    (eventType : AuditEventType) (error : Option String) (duration : Option Duration) :
    Posts entry? (worker.auditMsg env msg result eventType error duration) 1 [⟨msg.id, msg.topic, eventType⟩] :=
  .now fun _ => .ignore (routed_posts entry? accepts audited _ (.audit _))

def Shelving (topic : String) : Effect → Prop
  | .audit record => record.topic = deadLetterTopic topic
  | _ => True

theorem auditMsg_shelving (topic : String) {msg result eventType error duration}
    (letter : msg.topic = deadLetterTopic topic) :
    EmitsOnly (Shelving topic) (worker.auditMsg env msg result eventType error duration) :=
  (EmitsOnly.now env).bind fun _ => (EmitsOnly.routed env _ _ letter).ignore

theorem send_shelving {topic destination msg} :
    EmitsOnly (Shelving topic) (TopicRouter.send env destination msg none none) :=
  .send env (fun _ => trivial) (fun _ _ _ _ => trivial) fun _ _ => trivial

theorem mark_shelving {topic messageId about status attempts error} :
    EmitsOnly (Shelving topic) (worker.syncStatus env messageId about status attempts error) :=
  .syncStatus env worker fun _ => trivial

theorem sendToDeadLetter_shelving (msg : EMessage) (reason : DeadReason) (processTime : Duration) :
    EmitsOnly (Shelving worker.topic) (worker.sendToDeadLetter env msg reason processTime) := by
  refine EmitsOnly.bind mark_shelving fun _ => EmitsOnly.bind send_shelving fun _ => ?_
  exact .cond (fun _ => auditMsg_shelving worker.topic rfl) fun _ => .pure ()

theorem onNoAck_shelving (msg : EMessage) (retryAfter : Option Duration) (maxRetries : UInt32) (processTime : Duration) :
    EmitsOnly (Shelving worker.topic) (worker.onNoAck env msg retryAfter maxRetries processTime) := by
  refine EmitsOnly.bind mark_shelving fun _ => .cond (fun _ => sendToDeadLetter_shelving _ _ _) fun _ => ?_
  cases retryAfter with
  | some delay => exact (EmitsOnly.now env).bind fun _ => send_shelving
  | none => exact .produce env _ trivial

theorem onAck_shelving {msg times} (repeated : msg.deliveryMode = .repeated times) (processTime : Duration) :
    EmitsOnly (Shelving worker.topic) (worker.onAck env msg processTime) := by
  simp only [onAck, repeated]
  refine .cond (fun _ => mark_shelving) fun _ => EmitsOnly.bind mark_shelving fun _ => ?_
  exact EmitsOnly.bind mark_shelving fun _ => .produce env _ trivial

theorem settle_shelving {answer msg} (other : answer = .ack → ∃ times, msg.deliveryMode = .repeated times)
    (processTime : Duration) : EmitsOnly (Shelving worker.topic) (worker.settle env answer msg processTime) := by
  cases answer with
  | ack =>
    obtain ⟨times, repeated⟩ := other rfl
    exact onAck_shelving repeated processTime
  | noAck retryAfter maxRetries => exact onNoAck_shelving msg retryAfter maxRetries processTime
  | dead reason => exact EmitsOnly.bind mark_shelving fun _ => sendToDeadLetter_shelving msg reason processTime

theorem onAck_shows (accepts : ∀ call mode, env.sends call mode = none)
    (audited : ∀ table, env.routes = some table → systemTopicAudit ∈ table)
    (business : isSystemTopic worker.topic = false) {msg} (single : ∀ times, msg.deliveryMode ≠ .repeated times)
    (processTime : Duration) :
    Posts entry? (worker.onAck env msg processTime) (1 + 2) [⟨msg.id, msg.topic, .processingCompleted⟩] := by
  have other : worker.topic ≠ systemTopicAudit := ne_audit_of_business business
  have completed : Posts entry? (worker.auditMsg env msg .success .processingCompleted none (some processTime)) 1
      [⟨msg.id, msg.topic, .processingCompleted⟩] := auditMsg_shows accepts audited msg _ _ _ _
  have marked : Posts entry? (worker.markComplete env msg.id msg.topic msg.attempts) 2 [] :=
    syncStatus_posts entry? accepts worker _ _ _ _ _ fun _ => rfl
  cases mode : msg.deliveryMode with
  | repeated times => exact absurd mode (single times)
  | standard | broadcast =>
    simp only [onAck, mode, if_pos other]
    refine completed.before ?_
    exact marked

end

section
variable {attempt : Attempt} (business : isSystemTopic attempt.worker.topic = false) (accepted : attempt.Accepted)
include business accepted

theorem records_of_settle :
    ∃ middle, middle.effects.filterMap entry? = [⟨attempt.message.id, attempt.message.topic, .processingStarted⟩] ∧
      attempt.records.map entryOf =
        match (liftExcept (durationSince (attempt.env.clock 4) (attempt.env.clock 1)) >>= attempt.worker.settle attempt.env
          (attempt.worker.status attempt.run) attempt.run.message) middle with
        | .ok _ final | .error _ final => final.effects.filterMap entry? := by
  obtain ⟨middle, -, started, reaches⟩ := processMsg_announces attempt.worker attempt.run attempt.message business
    (auditMsg_shows accepted.sends accepted.audited attempt.message .start .processingStarted none none)
    (syncStatus_posts entry? accepted.sends attempt.worker _ _ .processing 0 none fun _ => rfl)
  refine ⟨middle, started, ?_⟩
  rw [Attempt.records, entries_map, Attempt.effects]
  simp only [TaskM.outcome, EStateM.run, reaches]
  split <;> simp only [*]

theorem completed_accounted (clock : ClockAdvances attempt.env)
    (acknowledged : attempt.worker.status attempt.run = .ack)
    (single : ∀ times, attempt.run.message.deliveryMode ≠ .repeated times) :
    attempt.records.map entryOf =
      [⟨attempt.message.id, attempt.message.topic, .processingStarted⟩,
        ⟨attempt.run.message.id, attempt.run.message.topic, .processingCompleted⟩] := by
  obtain ⟨middle, started, trail⟩ := records_of_settle business accepted
  have measured : attempt.env.clock 1 ≤ attempt.env.clock 4 := clock
  obtain ⟨final, ran, -, posted⟩ := onAck_shows accepted.sends accepted.audited business single
    (attempt.env.clock 4 - attempt.env.clock 1).toNat middle
  rw [started, List.singleton_append] at posted
  simpa only [acknowledged, settle, durationSince, if_pos measured, liftExcept, pure_bind, ran, posted] using trail

theorem shelved_unaccounted
    (other : attempt.worker.status attempt.run = .ack → ∃ times, attempt.run.message.deliveryMode = .repeated times) :
    ¬ attempt.Accounted := by
  intro accounted
  obtain ⟨middle, started, trail⟩ := records_of_settle business accepted
  rw [Attempt.Accounted] at accounted
  have shelving : EmitsOnly (Shelving attempt.worker.topic)
      (liftExcept (durationSince (attempt.env.clock 4) (attempt.env.clock 1)) >>= attempt.worker.settle attempt.env
        (attempt.worker.status attempt.run) attempt.run.message) :=
    (EmitsOnly.liftExcept _).bind fun processTime => settle_shelving other processTime
  obtain ⟨added, holds⟩ := shelving middle
  have letters : added.filterMap entry? =
      [⟨attempt.message.id, attempt.worker.topic, terminal attempt.worker attempt.run⟩] ∧
        ∀ effect ∈ added, Shelving attempt.worker.topic effect := by
    rw [accounted] at trail
    split at holds <;> rename_i ran <;> simp only [ran] at trail
    all_goals
      rw [holds.1, List.filterMap_append, started, List.singleton_append, List.cons.injEq] at trail
      exact ⟨trail.2.symm, holds.2⟩
  obtain ⟨effect, member, shown⟩ := List.mem_filterMap.mp (letters.1 ▸ List.mem_singleton_self _)
  have allowed := letters.2 effect member
  cases effect with
  | audit record =>
    have entry : entryOf record = ⟨attempt.message.id, attempt.worker.topic, terminal attempt.worker attempt.run⟩ :=
      Option.some.inj shown
    have topic : record.topic = attempt.worker.topic := congrArg AuditEntry.topic entry
    exact deadLetterTopic_ne attempt.worker.topic (allowed.symm.trans topic)
  | walSync | publish | requeue | schedule => cases shown

theorem clock_unaccounted (back : ¬ ClockAdvances attempt.env) : ¬ attempt.Accounted := by
  intro accounted
  obtain ⟨middle, started, trail⟩ := records_of_settle business accepted
  have earlier : ¬ attempt.env.clock 1 ≤ attempt.env.clock 4 := back
  rw [Attempt.Accounted] at accounted
  rw [accounted] at trail
  simp only [durationSince, if_neg earlier, liftExcept] at trail
  have short := trail.trans started
  simp at short

theorem accounted_iff_plain : attempt.Accounted ↔ attempt.Plain := by
  constructor
  · intro accounted
    have clock : ClockAdvances attempt.env := by
      by_contra back
      exact clock_unaccounted business accepted back accounted
    have completes : attempt.worker.status attempt.run = .ack ∧ ∀ times, attempt.run.message.deliveryMode ≠ .repeated times := by
      by_contra never
      refine shelved_unaccounted business accepted (fun acknowledged => ?_) accounted
      by_contra single
      exact never ⟨acknowledged, fun times repeated => single ⟨times, repeated⟩⟩
    have trail := (completed_accounted business accepted clock completes.1 completes.2).symm.trans accounted
    simp only [List.cons.injEq, AuditEntry.mk.injEq, and_true, true_and] at trail
    exact ⟨completes.1, completes.2, trail.1, trail.2.1, trail.2.2.1, clock⟩
  · intro plain
    have trail := completed_accounted business accepted plain.clock plain.acknowledged plain.single
    rw [plain.own, plain.sameId, plain.sameTopic] at trail
    rw [Attempt.Accounted, trail, terminal, plain.acknowledged]

end

def count (counts : Table Nat) (topic : String) : Nat := (counts.lookup topic).getD 0

def counter (aggregator : MetricsAggregator) : AuditEventType → Table Nat
  | .enqueued => aggregator.enqueued
  | .processingStarted => ∅
  | .processingCompleted => aggregator.completed
  | .retry => aggregator.retried
  | .deadLettered => aggregator.failed

theorem count_increment (counts : Table Nat) (topic about : String) :
    count (Table.increment counts topic) about = count counts about + if topic = about then 1 else 0 := by
  simp only [count, Table.increment]
  split
  next same =>
    subst same
    rw [AList.lookup_insert, Option.getD_some]
  next other => rw [AList.lookup_insert_ne (Ne.symm other), Nat.add_zero]

theorem feed_counts (aggregator : MetricsAggregator) (record : AuditRecord) {kind} (counted : kind ≠ .processingStarted)
    (topic : String) :
    count (counter (aggregator.feed record) kind) topic =
      count (counter aggregator kind) topic + if record.eventType = kind ∧ record.topic = topic then 1 else 0 := by
  by_cases same : record.eventType = kind
  · subst same
    cases event : record.eventType with
    | processingStarted => exact absurd event counted
    | enqueued | processingCompleted | retry | deadLettered =>
      simp only [feed, event, counter, true_and, count_increment]
  · have untouched : counter (aggregator.feed record) kind = counter aggregator kind := by
      cases event : record.eventType <;> cases kind <;> first
        | exact absurd event same
        | simp only [feed, event, counter]
    rw [untouched, if_neg fun both => same both.1, Nat.add_zero]

theorem fed_counts (records : List AuditRecord) (aggregator : MetricsAggregator) {kind}
    (counted : kind ≠ .processingStarted) (topic : String) :
    count (counter (records.foldl feed aggregator) kind) topic =
      count (counter aggregator kind) topic + (records.map entryOf).countP fun entry => entry.eventType = kind ∧ entry.topic = topic := by
  induction records generalizing aggregator with
  | nil => simp
  | cons record rest ih =>
    rw [List.foldl_cons, ih, feed_counts aggregator record counted topic, List.map_cons, List.countP_cons]
    simp only [decide_eq_true_eq]
    rw [Nat.add_right_comm, Nat.add_assoc]
    rfl

theorem system_silent {attempt : Attempt} (system : isSystemTopic attempt.worker.topic = true) : attempt.records = [] := by
  have quiet : attempt.effects = [] := by
    simp only [Attempt.effects, processMsg, system]
    rfl
  rw [Attempt.records, quiet]
  rfl

/-- The attempts of a run: those of business workers leave the trail they should. -/
def Kept (attempt : Attempt) : Prop :=
  isSystemTopic attempt.worker.topic = false → attempt.Accepted ∧ attempt.Plain

theorem attempt_counts {attempt : Attempt} (kept : Kept attempt) {kind} (counted : kind ≠ .processingStarted) {topic}
    (business : isSystemTopic topic = false) :
    (attempt.records.map entryOf).countP (fun entry => entry.eventType = kind ∧ entry.topic = topic) =
      if attempt.worker.topic = topic ∧ terminal attempt.worker attempt.run = kind then 1 else 0 := by
  cases system : isSystemTopic attempt.worker.topic with
  | true =>
    have other : attempt.worker.topic ≠ topic := by
      intro same
      rw [same, business] at system
      cases system
    rw [system_silent system, if_neg fun both => other both.1]
    rfl
  | false =>
    obtain ⟨accepted, plain⟩ := kept system
    have trail := (accounted_iff_plain system accepted).mpr plain
    rw [trail, List.countP_cons, List.countP_singleton]
    simp [counted.symm, and_comm]

theorem run_counts {attempts : List Attempt} (kept : ∀ attempt ∈ attempts, Kept attempt) {kind}
    (counted : kind ≠ .processingStarted) {topic} (business : isSystemTopic topic = false) :
    ((attempts.flatMap Attempt.records).map entryOf).countP (fun entry => entry.eventType = kind ∧ entry.topic = topic) =
      attempts.countP fun attempt => attempt.worker.topic = topic ∧ terminal attempt.worker attempt.run = kind := by
  induction attempts with
  | nil => rfl
  | cons attempt rest ih =>
    obtain ⟨first, others⟩ := List.forall_mem_cons.mp kept
    rw [List.flatMap_cons, List.map_append, List.countP_append, attempt_counts first counted business, ih others,
      List.countP_cons]
    simp only [decide_eq_true_eq]
    omega

def ended (attempts : List Attempt) (topic : String) (kind : AuditEventType) : Nat :=
  attempts.countP fun attempt => attempt.worker.topic = topic ∧ terminal attempt.worker attempt.run = kind

/-- In any run, with the records arriving in whatever order: an attempt whose sends are all accepted
is accounted for exactly when it plainly completes a message, and if all are, the counters of a topic
are the numbers of its attempts. -/
theorem trail_accounts_iff {attempts : List Attempt} {records : List AuditRecord}
    (arrived : records.Perm (attempts.flatMap Attempt.records)) :
    (∀ attempt ∈ attempts, isSystemTopic attempt.worker.topic = false → attempt.Accepted →
      (attempt.Accounted ↔ attempt.Plain)) ∧
    ((∀ attempt ∈ attempts, Kept attempt) → ∀ topic, isSystemTopic topic = false →
      let metrics := records.foldl MetricsAggregator.feed {}
      count metrics.completed topic = ended attempts topic .processingCompleted ∧
        count metrics.retried topic = ended attempts topic .retry ∧
        count metrics.failed topic = ended attempts topic .deadLettered) := by
  refine ⟨fun _ _ business accepted => accounted_iff_plain business accepted, ?_⟩
  intro kept topic business
  have counts {kind : AuditEventType} (counted : kind ≠ .processingStarted) :
      count (counter (records.foldl feed {}) kind) topic =
        count (counter {} kind) topic + ended attempts topic kind := by
    rw [fed_counts records {} counted topic, (arrived.map entryOf).countP_eq, run_counts kept counted business]
    rfl
  refine ⟨?_, ?_, ?_⟩
  · exact (counts (by decide : AuditEventType.processingCompleted ≠ _)).trans (Nat.zero_add _)
  · exact (counts (by decide : AuditEventType.retry ≠ _)).trans (Nat.zero_add _)
  · exact (counts (by decide : AuditEventType.deadLettered ≠ _)).trans (Nat.zero_add _)

private def order : EMessage := EMessage.new "m" 0 "orders" [] .standard none

private def tried (answer : Ack) : Attempt where
  env := { nodeType := .host, registry := ∅ }
  worker := { topic := "orders", name := "w" }
  run := { answer, message := order }
  message := order

private theorem tried_accepted (answer : Ack) : (tried answer).Accepted := ⟨fun _ _ => rfl, fun _ known => by cases known⟩

/-- An order that is acknowledged at once. -/
theorem acknowledged_order_counted :
    (tried .ack).Accounted ∧ count ((tried .ack).records.foldl MetricsAggregator.feed {}).completed "orders" = 1 := by
  have plain : (tried .ack).Plain := ⟨rfl, fun _ => DeliveryMode.noConfusion, rfl, rfl, rfl, Int.le_refl _⟩
  have arrived : (tried .ack).records.Perm ([tried .ack].flatMap Attempt.records) := by simp
  obtain ⟨accounted, counted⟩ := trail_accounts_iff arrived
  refine ⟨(accounted (tried .ack) List.mem_cons_self (by decide) (tried_accepted .ack)).mpr plain, ?_⟩
  have kept : ∀ attempt ∈ [tried .ack], Kept attempt := by
    intro attempt member
    rw [List.mem_singleton.mp member]
    exact fun _ => ⟨tried_accepted .ack, plain⟩
  exact (counted kept "orders" (by decide)).1

/-- A retry below the budget leaves no record of its end. -/
theorem retry_unrecorded :
    (tried (.noAck none 3)).Accepted ∧ terminal (tried (.noAck none 3)).worker (tried (.noAck none 3)).run = .retry ∧
      (tried (.noAck none 3)).records.map entryOf = [⟨"m", "orders", .processingStarted⟩] :=
  ⟨tried_accepted _, by decide, by decide⟩

end EventBase.Proofs.AuditTrail
