import EventBase.Proofs.DeadLetter
import EventBase.Proofs.StatusReports

/-! The whole of what one processing step does with a message that is no broadcast:
the reports it makes and the copy it leaves, if every call it makes is accepted. -/

namespace EventBase.Proofs.Disposition
open TaskLogic Accepted StatusReports DeadLetter Worker

inductive Deed where
  | report (mark : Mark) (error : Option String)
  | copy (effect : Effect)

def deed? : Effect → Option Deed
  | .audit _ => none
  | .walSync sync => some (.report (sync.messageId, sync.status) sync.error)
  | effect => some (.copy effect)

def cause? : Effect → Option String
  | .walSync sync => sync.error
  | _ => none

def causes (effects : List Effect) : List String := effects.filterMap cause?

namespace Deed

def mark? : Deed → Option Mark
  | .report mark _ => some mark
  | .copy _ => none

def cause? : Deed → Option String
  | .report _ error => error
  | .copy _ => none

def copy? : Deed → Option Effect
  | .report _ _ => none
  | .copy effect => some effect

end Deed

def sendsAs (topic : String) (msg : EMessage) : Effect :=
  if msg.deliverAt.isSome then .schedule (WalRecord.fromMsg msg) else .publish { msg with topic := topic }

def consumed (msg : EMessage) : EMessage := { msg with consumedCount := msg.consumedCount + 1 }

def retried (msg : EMessage) : EMessage := { msg with attempts := msg.attempts + 1 }

def copies (worker : Worker) (answer : Ack) (msg : EMessage) (time : SystemTime) : List Effect :=
  match answer with
  | .ack =>
    match msg.deliveryMode with
    | .repeated times => if times = msg.consumedCount + 1 then [] else [.requeue (consumed msg)]
    | _ => []
  | .noAck retryAfter maxRetries =>
    if maxRetries ≤ msg.attempts + 1 then
      [sendsAs (deadLetterTopic worker.topic) (letterOf worker.topic (retried msg))]
    else match retryAfter with
      | some delay => [sendsAs msg.topic { retried msg with deliverAt := time.checkedAdd delay }]
      | none => [.requeue (retried msg)]
  | .dead _ => [sendsAs (deadLetterTopic worker.topic) (letterOf worker.topic msg)]

def reason (answer : Ack) : Option String :=
  match answer with
  | .ack => none
  | .noAck _ _ => some DeadReason.maxRetriesExceeded.toText
  | .dead reason => some reason.toText

def reports (answer : Ack) (msg : EMessage) : List (Mark × Option String) :=
  (verdict answer msg).map fun status => ((msg.id, status), if status = .failed then reason answer else none)

def toDeeds (reports : List (Mark × Option String)) (left : List Effect) : List Deed :=
  reports.map (fun report => .report report.1 report.2) ++ left.map .copy

def deeds (worker : Worker) (answer : Ack) (msg : EMessage) (time : SystemTime) : List Deed :=
  toDeeds (reports answer msg) (copies worker answer msg time)

/-- Every call of the worker is accepted and what it sends is routed. -/
structure Reliable (env : Env) (worker : Worker) : Prop where
  wal : env.walAvailable = true
  sends : ∀ call mode, env.sends call mode = none
  schedules : ∀ call, env.schedules call = none
  reports : ∀ table, env.routes = some table → systemTopicWalSync ∈ table
  letters : ∀ table, env.routes = some table → deadLetterTopic worker.topic ∈ table
  clock : ClockAdvances env

section
variable {env : Env} {worker : Worker} (reliable : Reliable env worker)
include reliable

theorem mark_posts (messageId topic : String) (status : WalRecordState) (attempts : UInt32) (error : Option String) :
    Posts deed? (worker.syncStatus env messageId topic status attempts error) 2 [.report (messageId, status) error] :=
  syncStatus_shows reliable.sends worker messageId topic status attempts error reliable.reports fun _ _ => rfl

theorem audit_posts (msg : EMessage) (result : AuditResult) (eventType : AuditEventType) (error : Option String)
    (duration : Option Duration) : Posts deed? (worker.auditMsg env msg result eventType error duration) 1 [] :=
  auditMsg_posts deed? reliable.sends worker msg result eventType error duration fun _ => rfl

theorem send_posts {topic msg} (mode : msg.deliverAt = none → msg.deliveryMode ≠ .broadcast)
    (routes : msg.deliverAt = none → ∀ table, env.routes = some table → topic ∈ table) :
    Posts deed? (TopicRouter.send env topic msg none none) 0 [.copy (sendsAs topic msg)] := by
  unfold TopicRouter.send sendsAs
  by_cases delayed : msg.deliverAt.isSome = true
  · simp only [delayed, reliable.wal, if_true]
    exact schedule_posts deed? reliable.schedules (WalRecord.fromMsg msg)
  · have immediate : msg.deliverAt = none := by simpa using delayed
    simp only [delayed, mode immediate, if_false, Bool.false_eq_true]
    exact routed_posts deed? reliable.sends (routes immediate) (sendMode env none none) (.publish { msg with topic := topic })

theorem sendToDeadLetter_posts {msg} (mode : msg.deliverAt = none → msg.deliveryMode ≠ .broadcast) (reason : DeadReason)
    (processTime : Duration) :
    ∃ ticks, Posts deed? (worker.sendToDeadLetter env msg reason processTime) ticks
      [.report (msg.id, .failed) (some reason.toText), .copy (sendsAs (deadLetterTopic worker.topic) (letterOf worker.topic msg))] := by
  have marked := mark_posts reliable msg.id (deadLetterTopic worker.topic) .failed msg.attempts (some reason.toText)
  have sent : Posts deed? (TopicRouter.send env (deadLetterTopic worker.topic) (letterOf worker.topic msg) none none) 0 _ :=
    send_posts reliable mode fun _ => reliable.letters
  by_cases audited : worker.topic = systemTopicAudit
  · refine ⟨2 + (0 + 0), marked.bind (sent.before ?_)⟩
    rw [if_neg (by simp [audited])]
    exact .pure
  · refine ⟨2 + (0 + 1), marked.bind (sent.before ?_)⟩
    rw [if_pos audited]
    exact audit_posts reliable _ _ _ _ _

theorem onAck_posts (msg : EMessage) (processTime : Duration) (time : SystemTime) :
    ∃ ticks, Posts deed? (worker.onAck env msg processTime) ticks (deeds worker .ack msg time) := by
  have completed : Posts deed? (worker.markComplete env msg.id msg.topic msg.attempts) 2 [.report (msg.id, .complete) none] :=
    mark_posts reliable _ _ _ _ _
  have pending : Posts deed? (worker.markPending env msg.id msg.topic) 2 [.report (msg.id, .pending) none] :=
    mark_posts reliable _ _ _ _ _
  have once : ∃ ticks, Posts deed? (do
      if worker.topic ≠ systemTopicAudit then
        worker.auditMsg env msg .success .processingCompleted none (some processTime)
      worker.markComplete env msg.id msg.topic msg.attempts) ticks [.report (msg.id, .complete) none] := by
    by_cases audited : worker.topic = systemTopicAudit
    · rw [if_neg (by simp [audited])]
      exact ⟨2, completed⟩
    · rw [if_pos audited]
      exact ⟨1 + 2, (audit_posts reliable _ _ _ _ _).after completed⟩
  cases mode : msg.deliveryMode with
  | standard | broadcast => simpa only [onAck, deeds, toDeeds, reports, verdict, copies, mode, List.map_cons, List.map_nil, List.append_nil, reduceCtorEq, if_false] using once
  | repeated times =>
    simp only [onAck, deeds, toDeeds, reports, verdict, copies, mode]
    split
    · exact ⟨2, completed⟩
    · have sent : Posts deed? (ownSend env (consumed msg)) 0 [.copy (.requeue (consumed msg))] :=
        produce_posts deed? reliable.sends .send _
      rw [← mode]
      exact ⟨2 + (2 + 0), pending.bind (pending.bind sent)⟩

theorem onNoAck_shows {msg retryAfter maxRetries} (processTime : Duration) (session : Session)
    (mode : msg.deliveryMode = .broadcast →
      ∀ copy, .publish copy ∉ copies worker (.noAck retryAfter maxRetries) msg (env.clock (session.ticks + 2)))
    (routes : ∀ delay, retryAfter = some delay → (env.clock (session.ticks + 2)).checkedAdd delay = none →
      ∀ table, env.routes = some table → msg.topic ∈ table) :
    ∃ final, worker.onNoAck env msg retryAfter maxRetries processTime session = .ok () final ∧
      final.effects.filterMap deed? = session.effects.filterMap deed? ++
        deeds worker (.noAck retryAfter maxRetries) msg (env.clock (session.ticks + 2)) := by
  obtain ⟨middle, marked, ticks, posted⟩ := mark_posts reliable msg.id msg.topic .pending 0 none session
  have continues {next : TaskM Unit} {count : Nat} {added : List Deed} (posts : Posts deed? next count added) :
      ∃ final, (worker.markPending env msg.id msg.topic >>= fun _ => next) session = .ok () final ∧
        final.effects.filterMap deed? = session.effects.filterMap deed? ++ (.report (msg.id, .pending) none :: added) := by
    obtain ⟨final, ran, -, last⟩ := posts middle
    refine ⟨final, by simp only [Bind.bind, EStateM.bind, markPending, marked, ran], ?_⟩
    rw [last, posted, List.append_assoc, List.singleton_append]
  by_cases spent : maxRetries ≤ msg.attempts + 1
  · have unicast : (retried msg).deliverAt = none → (retried msg).deliveryMode ≠ .broadcast := by
      intro immediate fanned
      refine mode fanned (letterOf worker.topic (retried msg)) ?_
      simp [copies, spent, sendsAs, letterOf, immediate]
    obtain ⟨count, posts⟩ := sendToDeadLetter_posts reliable unicast .maxRetriesExceeded processTime
    simp only [onNoAck, deeds, toDeeds, reports, verdict, copies, spent, if_true]
    exact continues posts
  · simp only [onNoAck, deeds, toDeeds, reports, verdict, copies, spent, if_false]
    cases retryAfter with
    | none => exact continues (produce_posts deed? reliable.sends .send (.requeue (retried msg)))
    | some delay =>
      have clock : env.clock (session.ticks + 2) = env.clock middle.ticks := by rw [ticks]
      rw [clock] at routes mode ⊢
      have unicast (late : (env.clock middle.ticks).checkedAdd delay = none) : msg.deliveryMode ≠ .broadcast := by
        intro fanned
        refine mode fanned { retried msg with deliverAt := none } ?_
        simp [copies, spent, sendsAs, retried, late]
      have sent : Posts deed? (TopicRouter.send env msg.topic
          { retried msg with deliverAt := (env.clock middle.ticks).checkedAdd delay } none none) 0 _ :=
        send_posts reliable unicast (routes delay rfl)
      obtain ⟨final, ran, -, last⟩ := sent { middle with ticks := middle.ticks + 1 }
      refine ⟨final, ?_, ?_⟩
      · simp only [Bind.bind, EStateM.bind, markPending, marked, now, get, getThe, MonadStateOf.get, EStateM.get, set,
          EStateM.set, Pure.pure, EStateM.pure]
        exact ran
      · rw [last, posted, List.append_assoc]
        rfl

theorem settle_shows {answer msg} (processTime : Duration) (session : Session)
    (mode : msg.deliveryMode = .broadcast → ∀ copy, .publish copy ∉ copies worker answer msg (env.clock (session.ticks + 2)))
    (routes : ∀ delay maxRetries, answer = .noAck (some delay) maxRetries →
      (env.clock (session.ticks + 2)).checkedAdd delay = none → ∀ table, env.routes = some table → msg.topic ∈ table) :
    ∃ final, worker.settle env answer msg processTime session = .ok () final ∧
      final.effects.filterMap deed? = session.effects.filterMap deed? ++
        deeds worker answer msg (env.clock (session.ticks + 2)) := by
  cases answer with
  | ack =>
    obtain ⟨_, posts⟩ := onAck_posts reliable msg processTime (env.clock (session.ticks + 2))
    obtain ⟨final, ran, -, posted⟩ := posts session
    exact ⟨final, ran, posted⟩
  | noAck retryAfter maxRetries =>
    refine onNoAck_shows reliable processTime session mode fun delay asked => ?_
    exact routes delay maxRetries (by rw [asked])
  | dead reason =>
    have unicast (immediate : msg.deliverAt = none) : msg.deliveryMode ≠ .broadcast := by
      intro fanned
      refine mode fanned (letterOf worker.topic msg) ?_
      simp [copies, sendsAs, letterOf, immediate]
    obtain ⟨_, posts⟩ := sendToDeadLetter_posts reliable unicast reason processTime
    have marked := mark_posts reliable msg.id msg.topic .failed msg.attempts (some reason.toText)
    obtain ⟨final, ran, -, posted⟩ := marked.seq posts session
    exact ⟨final, ran, posted⟩

/-- The reports and the copy of a call, in the order it makes them. A broadcast that
is published is fanned out, so its copies are the registry's. -/
theorem processMsg_shows {run} (msg : EMessage) (business : isSystemTopic worker.topic = false)
    (mode : run.message.deliveryMode = .broadcast →
      ∀ copy, .publish copy ∉ copies worker (worker.status run) run.message (env.clock 7))
    (routes : ∀ delay maxRetries, worker.status run = .noAck (some delay) maxRetries →
      (env.clock 7).checkedAdd delay = none → ∀ table, env.routes = some table → run.message.topic ∈ table) :
    (worker.processMsg env run msg).outcome.1.filterMap deed? =
      .report (msg.id, .processing) none :: deeds worker (worker.status run) run.message (env.clock 7) := by
  obtain ⟨middle, ticks, started, reaches⟩ := processMsg_announces worker run msg business
    (audit_posts reliable msg .start .processingStarted none none) (mark_posts reliable msg.id msg.topic .processing 0 none)
  have seventh : env.clock (middle.ticks + 2) = env.clock 7 := by rw [ticks]
  rw [← seventh] at routes mode ⊢
  obtain ⟨final, ran, posted⟩ := settle_shows reliable (env.clock 4 - env.clock 1).toNat middle mode routes
  have settled : worker.processMsg env run msg Session.start = .ok () final := by
    rw [reaches]
    simpa only [durationSince, if_pos (show env.clock 1 ≤ env.clock 4 from reliable.clock), liftExcept, pure_bind] using ran
  simp only [TaskM.outcome, EStateM.run, settled]
  rw [posted, started]
  rfl

end

section
variable {effects : List Effect}

theorem filterMap_deeds {β : Type} {view} (read : Deed → Option β)
    (agrees : ∀ effect, (deed? effect).bind read = view effect) {deeds} (shown : effects.filterMap deed? = deeds) :
    effects.filterMap view = deeds.filterMap read := by
  rw [← shown, List.filterMap_filterMap]
  exact List.filterMap_congr fun effect _ => (agrees effect).symm

structure Traced (effects : List Effect) (reports : List (Mark × Option String)) (left : List Effect) : Prop where
  marks : marks effects = reports.map Prod.fst
  causes : causes effects = reports.filterMap Prod.snd
  business : effects.filterMap business = left

theorem traced_of_deeds {reports left} (shown : effects.filterMap deed? = toDeeds reports left) :
    Traced effects reports left := by
  have marked : StatusReports.marks effects = _ := filterMap_deeds Deed.mark? (fun effect => by cases effect <;> rfl) shown
  have caused : causes effects = _ := filterMap_deeds Deed.cause? (fun effect => by cases effect <;> rfl) shown
  have copied : effects.filterMap business = _ := filterMap_deeds Deed.copy? (fun effect => by cases effect <;> rfl) shown
  simp only [toDeeds, List.filterMap_append, List.filterMap_map] at marked caused copied
  refine ⟨marked.trans ?_, caused.trans ?_, copied.trans ?_⟩
  · simp [Function.comp_def, Deed.mark?]
  · simp [Function.comp_def, Deed.cause?]
  · simp [Function.comp_def, Deed.copy?]

end

theorem processMsg_trace {env worker} (reliable : Reliable env worker) {run} (msg : EMessage)
    (business : isSystemTopic worker.topic = false) (mode : run.message.deliveryMode = .broadcast →
      ∀ copy, .publish copy ∉ copies worker (worker.status run) run.message (env.clock 7))
    (routes : ∀ delay maxRetries, worker.status run = .noAck (some delay) maxRetries →
      (env.clock 7).checkedAdd delay = none → ∀ table, env.routes = some table → run.message.topic ∈ table) :
    Traced (worker.processMsg env run msg).outcome.1 (((msg.id, .processing), none) :: reports (worker.status run) run.message)
      (copies worker (worker.status run) run.message (env.clock 7)) :=
  traced_of_deeds (processMsg_shows reliable msg business mode routes)

inductive Fate where
  | finished
  | requeued
  | delayed
  | shelved

def statuses (messageId : String) (effects : List Effect) : List WalRecordState :=
  (marks effects).filterMap fun mark => if mark.1 = messageId then some mark.2 else none

/-- `copy` differs from the message at most in a counter that went up by one. -/
inductive Counts (msg copy : EMessage) : Prop where
  | consumed (same : copy = { msg with consumedCount := copy.consumedCount })
      (count : copy.consumedCount.toNat = msg.consumedCount.toNat + 1)
  | attempts (same : copy = { msg with attempts := copy.attempts }) (count : copy.attempts.toNat = msg.attempts.toNat + 1)

section
variable (env : Env) (worker : Worker) (run : PipelineRun) (msg : EMessage)

def left : List Effect := (worker.processMsg env run msg).outcome.1.filterMap business

def Reported (final : WalRecordState) : Prop :=
  let reported := statuses msg.id (worker.processMsg env run msg).outcome.1
  reported.head? = some .processing ∧ reported.getLast? = some final

/-- `left` is everything the call sends or schedules apart from its reports. -/
def Disposed : Fate → Prop
  | .finished =>
    left env worker run msg = [] ∧ Reported env worker run msg .complete ∧ worker.status run = .ack ∧
      (run.message.deliveryMode = .standard ∨
        ∃ times, run.message.deliveryMode = .repeated times ∧ run.message.consumedCount.toNat + 1 = times.toNat)
  | .requeued =>
    ∃ copy, left env worker run msg = [.requeue copy] ∧ Counts run.message copy ∧ Reported env worker run msg .pending
  | .delayed =>
    ∃ record delay maxRetries deliverAt, left env worker run msg = [.schedule record] ∧
      worker.status run = .noAck (some delay) maxRetries ∧
      record.message = { run.message with attempts := record.message.attempts, deliverAt := some deliverAt } ∧
      record.message.attempts.toNat = run.message.attempts.toNat + 1 ∧
      (∀ reading ≤ 7, env.clock reading + delay ≤ deliverAt) ∧ Reported env worker run msg .pending
  | .shelved =>
    ∃ letter, left env worker run msg = [.publish letter] ∧ letter.topic = deadLetterTopic worker.topic ∧
      letter.toWorker = none ∧ letter.id = run.message.id ∧ letter.payload = run.message.payload ∧
      Reported env worker run msg .failed

/-- The clock does not step back, counters and deadlines do not overflow, and the
pipeline leaves a Standard or Repeated message under its id. The eighth clock reading
is the one a deadline is computed from. -/
structure Regular : Prop where
  reliable : Reliable env worker
  monotone : Monotone env.clock
  mode : run.message.deliveryMode ≠ .broadcast
  id : run.message.id = msg.id
  attempts : run.message.attempts.toNat + 1 < 2 ^ 32
  consumedCount : run.message.consumedCount.toNat + 1 < 2 ^ 32
  representable : ∀ delay maxRetries, worker.status run = .noAck (some delay) maxRetries →
    env.clock 7 + delay < SystemTime.limit

/-- A business worker disposes of the message in exactly one way, a system worker
emits nothing. -/
def Settled : Prop :=
  (isSystemTopic worker.topic = false → ∃! fate, Disposed env worker run msg fate) ∧
    (isSystemTopic worker.topic = true → (worker.processMsg env run msg).outcome.1 = [])

end

section
variable {env : Env} {worker : Worker} {run : PipelineRun} {msg : EMessage}

theorem checkedAdd_some {time : SystemTime} {delay : Duration} (room : time + delay < SystemTime.limit) :
    time.checkedAdd delay = some (time + delay) := if_pos room

theorem Disposed.unique {first second} (one : Disposed env worker run msg first)
    (other : Disposed env worker run msg second) : first = second := by
  cases first <;> cases second <;> simp only [Disposed] at one other <;> first
    | rfl
    | grind

variable (business : isSystemTopic worker.topic = false) (regular : Regular env worker run msg)
include business regular

theorem Regular.trace :
    Traced (worker.processMsg env run msg).outcome.1 (((msg.id, .processing), none) :: Disposition.reports (worker.status run) run.message)
      (copies worker (worker.status run) run.message (env.clock 7)) := by
  refine processMsg_trace regular.reliable msg business (fun fanned => absurd fanned regular.mode) fun delay maxRetries asked late => ?_
  rw [checkedAdd_some (regular.representable delay maxRetries asked)] at late
  cases late

theorem Regular.leaves : left env worker run msg = copies worker (worker.status run) run.message (env.clock 7) :=
  (regular.trace business).business

theorem Regular.reports :
    statuses msg.id (worker.processMsg env run msg).outcome.1 = .processing :: verdict (worker.status run) run.message := by
  rw [Disposition.statuses, (regular.trace business).marks, Disposition.reports, regular.id]
  simp [List.filterMap_map, Function.comp_def]

theorem Regular.reported {final} (last : (verdict (worker.status run) run.message).getLast? = some final) :
    Reported env worker run msg final := by
  simp only [Reported, regular.reports business, List.head?_cons, List.getLast?_cons, last, Option.getD_some, true_and]

theorem Regular.shelved (dying : EMessage) (immediate : dying.deliverAt = none) (id : dying.id = run.message.id)
    (payload : dying.payload = run.message.payload)
    (sent : copies worker (worker.status run) run.message (env.clock 7) =
      [sendsAs (deadLetterTopic worker.topic) (letterOf worker.topic dying)])
    (last : (verdict (worker.status run) run.message).getLast? = some .failed) : Disposed env worker run msg .shelved := by
  refine ⟨letterOf worker.topic dying, ?_, rfl, rfl, id, payload, regular.reported business last⟩
  rw [regular.leaves business, sent, sendsAs, if_neg (by simp [letterOf, immediate])]
  rfl

theorem Regular.disposed (straight : run.message.deliverAt = none ∨ ¬ Dies worker run) :
    ∃ fate, Disposed env worker run msg fate := by
  have reported {final : WalRecordState} (last : (verdict (worker.status run) run.message).getLast? = some final) :=
    regular.reported business last
  have left := regular.leaves business
  cases answer : worker.status run with
  | ack =>
    rw [answer] at reported left
    cases mode : run.message.deliveryMode with
    | broadcast => exact absurd mode regular.mode
    | standard =>
      simp only [verdict, copies, mode] at reported left
      exact ⟨.finished, left, reported rfl, answer, .inl mode⟩
    | repeated times =>
      simp only [verdict, copies, mode] at reported left
      have count : (run.message.consumedCount + 1).toNat = run.message.consumedCount.toNat + 1 := by
        have room := regular.consumedCount
        rw [UInt32.toNat_add, UInt32.toNat_one]
        omega
      by_cases done : times = run.message.consumedCount + 1
      · simp only [done, if_true] at reported left
        exact ⟨.finished, left, reported rfl, answer, .inr ⟨times, mode, by rw [done, count]⟩⟩
      · simp only [done, if_false] at reported left
        exact ⟨.requeued, consumed run.message, left, .consumed rfl count, reported rfl⟩
  | noAck retryAfter maxRetries =>
    have count : (run.message.attempts + 1).toNat = run.message.attempts.toNat + 1 := by
      have room := regular.attempts
      rw [UInt32.toNat_add, UInt32.toNat_one]
      omega
    by_cases spent : maxRetries ≤ run.message.attempts + 1
    · have immediate := straight.resolve_right fun alive => alive (.inr ⟨retryAfter, maxRetries, answer, spent⟩)
      refine ⟨.shelved, regular.shelved business (retried run.message) immediate rfl rfl ?_ ?_⟩
      · simp only [answer, copies, spent, if_true]
      · simp only [answer, verdict, spent, if_true]
        rfl
    · rw [answer] at reported left
      simp only [verdict, copies, spent, if_false] at reported left
      cases retryAfter with
      | none => exact ⟨.requeued, retried run.message, left, .attempts rfl count, reported rfl⟩
      | some delay =>
        simp only [checkedAdd_some (regular.representable delay maxRetries answer)] at left
        refine ⟨.delayed, _, delay, maxRetries, env.clock 7 + delay, left, answer, rfl, count, ?_, reported rfl⟩
        intro reading early
        exact Int.add_le_add_right (regular.monotone early) _
  | dead reason =>
    have immediate := straight.resolve_right fun alive => alive (.inl ⟨reason, answer⟩)
    refine ⟨.shelved, regular.shelved business run.message immediate rfl rfl ?_ ?_⟩
    · simp only [answer, copies]
    · simp only [answer, verdict]
      rfl

theorem Regular.diverted (dies : Dies worker run) (delayed : run.message.deliverAt ≠ none) :
    ∃ record, left env worker run msg = [.schedule record] ∧
      (statuses msg.id (worker.processMsg env run msg).outcome.1).getLast? = some .failed := by
  have stored : run.message.deliverAt.isSome = true := Option.isSome_iff_ne_none.mpr delayed
  rw [regular.reports business, regular.leaves business]
  rcases dies with ⟨reason, answer⟩ | ⟨retryAfter, maxRetries, answer, spent⟩
  · simp only [answer, copies, verdict, sendsAs, letterOf, stored, if_true]
    exact ⟨_, rfl, rfl⟩
  · simp only [answer, copies, verdict, spent, sendsAs, letterOf, retried, stored, if_true]
    exact ⟨_, rfl, rfl⟩

theorem Regular.undisposed (dies : Dies worker run) (delayed : run.message.deliverAt ≠ none) (fate : Fate) :
    ¬ Disposed env worker run msg fate := by
  intro disposed
  obtain ⟨record, stored, last⟩ := regular.diverted business dies delayed
  cases fate with
  | finished => cases stored.symm.trans disposed.1
  | requeued =>
    obtain ⟨copy, sent, -⟩ := disposed
    cases stored.symm.trans sent
  | delayed =>
    obtain ⟨-, -, -, -, -, -, -, -, -, -, reported⟩ := disposed
    cases last.symm.trans reported
  | shelved =>
    obtain ⟨letter, sent, -⟩ := disposed
    cases stored.symm.trans sent

end

theorem processMsg_silent {env} {worker : Worker} {run msg} (system : isSystemTopic worker.topic = true) :
    (worker.processMsg env run msg).outcome.1 = [] := by
  simp only [processMsg, system, Bool.not_true, Bool.false_and, Bool.false_eq_true, if_false, if_true]
  rfl

/-- For a Standard or Repeated message and with every call accepted, the step is one
of the four exactly if the message does not die with a deadline. -/
theorem settled_iff {env : Env} {worker : Worker} {run : PipelineRun} {msg : EMessage}
    (regular : isSystemTopic worker.topic = false → Regular env worker run msg) :
    Settled env worker run msg ↔
      (isSystemTopic worker.topic = true ∨ run.message.deliverAt = none ∨ ¬ Dies worker run) := by
  cases topic : isSystemTopic worker.topic with
  | true =>
    refine ⟨fun _ => .inl rfl, fun _ => ⟨fun business => ?_, processMsg_silent⟩⟩
    rw [topic] at business
    cases business
  | false =>
    constructor
    · rintro ⟨disposes, -⟩
      by_contra blocked
      simp only [Bool.false_eq_true, false_or, not_or, not_not] at blocked
      obtain ⟨fate, disposed, -⟩ := disposes topic
      exact (regular topic).undisposed topic blocked.2 blocked.1 fate disposed
    · intro straight
      have straight := straight.resolve_left (by simp)
      obtain ⟨fate, disposed⟩ := (regular topic).disposed topic straight
      exact ⟨fun _ => ⟨fate, disposed, fun other holds => holds.unique disposed⟩, processMsg_silent⟩

private def node : Env where
  nodeType := .worker
  registry := ∅
  routes := some ["orders", "dead_letter.orders", "_system.wal_sync"]

private def worker : Worker := { topic := "orders", name := "w" }

private def order (deliverAt : Option SystemTime) : EMessage :=
  { EMessage.new "m" 0 "orders" [7] .standard none with deliverAt }

private def refused (deliverAt : Option SystemTime) : PipelineRun := { answer := .dead .explicit, message := order deliverAt }

private theorem refused_regular (deliverAt : Option SystemTime) :
    Regular node worker (refused deliverAt) (order deliverAt) where
  reliable := by
    refine ⟨rfl, fun _ _ => rfl, fun _ => rfl, ?_, ?_, Int.le_refl 0⟩
    · rintro _ ⟨⟩
      decide
    · rintro _ ⟨⟩
      decide
  monotone := monotone_const
  mode := by
    change DeliveryMode.standard ≠ .broadcast
    decide
  id := rfl
  attempts := by
    change (0 : UInt32).toNat + 1 < 2 ^ 32
    decide
  consumedCount := by
    change (0 : UInt32).toNat + 1 < 2 ^ 32
    decide
  representable := by
    intro delay maxRetries asked
    cases asked

theorem refused_order_settled : Settled node worker (refused none) (order none) :=
  (settled_iff fun _ => refused_regular none).mpr (.inr (.inl rfl))

/-- A message that still carries the deadline it was delivered for dies: its letter
is scheduled and nothing is put on the shelf. -/
theorem delayed_order_unsettled :
    Regular node worker (refused (some 5)) (order (some 5)) ∧
      left node worker (refused (some 5)) (order (some 5)) =
        [.schedule (WalRecord.fromMsg (letterOf "orders" (order (some 5))))] ∧
      ¬ Settled node worker (refused (some 5)) (order (some 5)) := by
  have regular := refused_regular (some 5)
  refine ⟨regular, by decide +kernel, ?_⟩
  rintro ⟨disposes, -⟩
  obtain ⟨fate, disposed, -⟩ := disposes (by decide)
  exact regular.undisposed (by decide) (.inl ⟨.explicit, rfl⟩) (Option.some_ne_none 5) fate disposed

end EventBase.Proofs.Disposition
