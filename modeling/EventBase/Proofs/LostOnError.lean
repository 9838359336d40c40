import EventBase.Proofs.Accepted

/-! Which failures inside `process_msg` lose the message. The inbox has already settled the
claim, so after an error only what the call put somewhere itself is left. -/

namespace EventBase.Proofs.LostOnError
open TaskLogic Accepted Worker

/-- A message with the content of `base`, under its id or under that of one of its broadcast copies. -/
def CopyOf (base copy : EMessage) : Prop :=
  copy.payload = base.payload ∧ (copy.id = base.id ∨ ∃ name, copy.id = base.id ++ "-" ++ name)

/-- The effect puts a copy into the topic's queue, the delay store or the dead-letter topic. -/
def Keeps (worker : Worker) (base : EMessage) : Effect → Prop
  | .requeue copy => CopyOf base copy
  | .schedule record => CopyOf base record.message
  | .publish copy => CopyOf base copy ∧ (copy.topic = base.topic ∨ copy.topic = deadLetterTopic worker.topic)
  | .audit _ | .walSync _ => False

section
variable (env : Env)

def Accepts (topic : String) (call : Nat) : Prop :=
  match env.routes with
  | none => env.sends call (sendMode env none none) = none
  | some table => if topic ∈ table then env.sends call (sendMode env none none) = none else isSystemTopic topic = true

/-- The producer calls one message on this topic costs: none where it is dropped. -/
def calls (topic : String) : Nat :=
  match env.routes with
  | none => 1
  | some table => if topic ∈ table then 1 else 0

/-- `TopicRouter::send` puts the message somewhere or has nobody to send it to. Of a fan-out
the first copy is enough. -/
def SendKeeps (topic : String) (msg : EMessage) (call : Nat) : Prop :=
  if msg.deliverAt.isSome then env.walAvailable = true ∧ env.schedules 0 = none
  else if msg.deliveryMode = .broadcast then
    env.nodeType ≠ .worker ∧ (getWorkers env.registry topic = [] ∨ Accepts env msg.topic call)
  else Accepts env topic call

def reports : Nat := calls env systemTopicWalSync

def Reports (call : Nat) : Prop := Accepts env systemTopicWalSync call

def LetterKeeps (worker : Worker) (msg : EMessage) (call : Nat) : Prop :=
  Reports env call ∧ SendKeeps env (deadLetterTopic worker.topic)
    { msg with topic := deadLetterTopic worker.topic, toWorker := none } (call + reports env)

/-- Every report the verdict needs is taken, and so is the message where it is put back. -/
def SettleKeeps (worker : Worker) (answer : Ack) (msg : EMessage) (call : Nat) : Prop :=
  match answer with
  | .ack =>
    match msg.deliveryMode with
    | .repeated times =>
      Reports env call ∧ (times = msg.consumedCount + 1 ∨
        Reports env (call + reports env) ∧ env.sends (call + reports env + reports env) .send = none)
    | _ => Reports env (call + calls env systemTopicAudit)
  | .noAck retryAfter maxRetries =>
    Reports env call ∧
      if maxRetries ≤ msg.attempts + 1 then
        LetterKeeps env worker { msg with attempts := msg.attempts + 1 } (call + reports env)
      else match retryAfter with
        | some delay =>
          SendKeeps env msg.topic
            { msg with attempts := msg.attempts + 1, deliverAt := (env.clock 7).checkedAdd delay } (call + reports env)
        | none => env.sends (call + reports env) .send = none
  | .dead _ => Reports env call ∧ LetterKeeps env worker msg (call + reports env)

/-- The processing report is taken, the clock does not step back, and the verdict's calls are taken. -/
structure NoneFails (worker : Worker) (run : PipelineRun) : Prop where
  processing : Reports env (calls env systemTopicAudit)
  clock : ClockAdvances env
  verdict : SettleKeeps env worker (worker.status run) run.message (calls env systemTopicAudit + reports env)

end

section
variable {env : Env} {worker : Worker} {base : EMessage}

/-- A session after so many producer calls and clock readings, with no copy put anywhere yet. -/
structure Bare (worker : Worker) (base : EMessage) (session : Session) (call ticks : Nat) : Prop where
  sends : session.sends = call
  schedules : session.schedules = 0
  ticks : session.ticks = ticks
  none : ∀ effect ∈ session.effects, ¬ Keeps worker base effect

def Safe (worker : Worker) (base : EMessage) (task : TaskM Unit) (session : Session) : Prop :=
  match task session with
  | .ok _ _ => True
  | .error _ final => ∃ effect ∈ final.effects, Keeps worker base effect

/-- A step that keeps no copy: it succeeds exactly where `ran` holds. -/
structure Steps (worker : Worker) (base : EMessage) (task : TaskM Unit) (session : Session) (call ticks : Nat) (ran : Prop) :
    Prop where
  succeeds : ran → ∃ next, task session = .ok () next ∧ Bare worker base next call ticks
  fails : ¬ ran → ∃ error next, task session = .error error next ∧ Bare worker base next call ticks

theorem Safe.bind {first next session call ticks ran kept} (step : Steps worker base first session call ticks ran)
    (rest : ∀ middle, Bare worker base middle call ticks → (Safe worker base (next ()) middle ↔ kept)) :
    Safe worker base (first >>= next) session ↔ ran ∧ kept := by
  by_cases runs : ran
  · obtain ⟨middle, done, bare⟩ := step.succeeds runs
    have continues : Safe worker base (first >>= next) session ↔ Safe worker base (next ()) middle := by
      simp only [Safe, Bind.bind, EStateM.bind, done]
    rw [continues, rest middle bare, and_iff_right runs]
  · obtain ⟨error, final, failed, bare⟩ := step.fails runs
    constructor
    · intro safe
      simp only [Safe, Bind.bind, EStateM.bind, failed] at safe
      obtain ⟨effect, member, keeps⟩ := safe
      exact absurd keeps (bare.none effect member)
    · exact fun both => absurd both.1 runs

theorem Safe.last {task session call ticks ran} (step : Steps worker base task session call ticks ran) :
    Safe worker base task session ↔ ran := by
  by_cases runs : ran
  · obtain ⟨final, done, -⟩ := step.succeeds runs
    simp only [Safe, done, runs]
  · obtain ⟨error, final, failed, bare⟩ := step.fails runs
    simp only [Safe, failed, runs, iff_false, not_exists, not_and]
    exact bare.none

theorem Safe.before {first next} (session : Session) (succeeds : ∀ middle, ∃ final, next () middle = .ok () final) :
    Safe worker base (first >>= next) session ↔ Safe worker base first session := by
  cases ran : first session with
  | ok value middle =>
    obtain ⟨final, done⟩ := succeeds middle
    simp only [Safe, Bind.bind, EStateM.bind, ran, done]
  | error error middle => simp only [Safe, Bind.bind, EStateM.bind, ran]

theorem ignored_succeeds (task : TaskM Unit) (session : Session) :
    ∃ next, tryCatch task (fun _ => Pure.pure ()) session = .ok () next := by
  simp only [tryCatch, tryCatchThe, MonadExceptOf.tryCatch, EStateM.tryCatch]
  cases task session with
  | ok _ next => exact ⟨next, rfl⟩
  | error _ next => exact ⟨next, rfl⟩

def Drops (env : Env) (topic : String) : Prop :=
  ∃ table, env.routes = some table ∧ topic ∉ table ∧ isSystemTopic topic = true

theorem produce_cases (env : Env) (mode : SendMode) (effect : Effect) (session : Session) :
    (env.sends session.sends mode = none ∧ produce env mode effect session =
      .ok () { session with sends := session.sends + 1, effects := session.effects ++ [effect] }) ∨
    ∃ error, env.sends session.sends mode = some error ∧
      produce env mode effect session = .error error { session with sends := session.sends + 1 } := by
  rw [produce_eq]
  cases env.sends session.sends mode with
  | none => exact .inl ⟨rfl, rfl⟩
  | some error => exact .inr ⟨error, rfl, rfl⟩

theorem routed_cases (env : Env) (topic : String) (effect : Effect) (session : Session) :
    (Accepts env topic session.sends ∧ routed env topic (sendMode env none none) effect session =
      .ok () { session with sends := session.sends + calls env topic, effects := session.effects ++ [effect] }) ∨
    (Accepts env topic session.sends ∧ Drops env topic ∧ routed env topic (sendMode env none none) effect session =
      .ok () { session with sends := session.sends + calls env topic }) ∨
    ∃ error, ¬ Accepts env topic session.sends ∧ routed env topic (sendMode env none none) effect session =
      .error error { session with sends := session.sends + calls env topic } := by
  have produced := produce_cases env (sendMode env none none) effect session
  unfold Accepts calls routed Drops
  cases env.routes with
  | none =>
    obtain taken | ⟨error, refused, failed⟩ := produced
    · exact .inl taken
    · exact .inr (.inr ⟨error, by simp [refused], failed⟩)
  | some table =>
    by_cases known : topic ∈ table
    · simp only [if_pos known]
      obtain taken | ⟨error, refused, failed⟩ := produced
      · exact .inl taken
      · exact .inr (.inr ⟨error, by simp [refused], failed⟩)
    · simp only [if_neg known]
      by_cases system : isSystemTopic topic = true
      · simp only [if_pos system]
        exact .inr (.inl ⟨system, ⟨table, rfl, known, system⟩, rfl⟩)
      · simp only [if_neg system]
        exact .inr (.inr ⟨_, system, rfl⟩)

theorem emitCopies_dropped {msg} (dropped : Drops env msg.topic) (workers : List WorkerInfo) (session : Session) :
    emitCopies env msg none none workers session = .ok () session := by
  induction workers with
  | nil => rfl
  | cons info rest ih =>
    obtain ⟨table, routes, unknown, system⟩ := dropped
    have skipped : emit env (broadcastCopy msg info) none none = pure () := by
      simp [emit, routed, routes, broadcastCopy, unknown, system]
    rw [emitCopies, skipped, pure_bind, ih]

theorem emitCopies_keeps {msg} (workers : List WorkerInfo) {session effect} (member : effect ∈ session.effects)
    (keeps : Keeps worker base effect) :
    Safe worker base (emitCopies env msg none none workers) session := by
  have grows : EmitsOnly (fun _ => True) (emitCopies env msg none none workers) :=
    .emitCopies env fun _ _ => trivial
  obtain ⟨added, holds⟩ := grows session
  unfold Safe
  split
  · trivial
  next failed =>
    simp only [failed] at holds
    exact ⟨effect, holds.1 ▸ List.mem_append_left _ member, keeps⟩

section
variable {session : Session} {call ticks : Nat} (bare : Bare worker base session call ticks)
include bare

theorem Bare.tick :
    Bare worker base { session with ticks := session.ticks + 1 } call (ticks + 1) :=
  ⟨bare.sends, bare.schedules, congrArg (· + 1) bare.ticks, bare.none⟩

theorem Safe.now {next kept}
    (rest : ∀ middle, Bare worker base middle call (ticks + 1) → (Safe worker base (next (env.clock ticks)) middle ↔ kept)) :
    Safe worker base (now env >>= next) session ↔ kept := by
  have later := rest _ bare.tick
  rw [← bare.ticks] at later
  exact later

theorem Bare.calls (more : Nat) :
    Bare worker base { session with sends := session.sends + more } (call + more) ticks :=
  ⟨congrArg (· + more) bare.sends, bare.schedules, bare.ticks, bare.none⟩

theorem Bare.adds {effect} (idle : ¬ Keeps worker base effect) :
    Bare worker base { session with effects := session.effects ++ [effect] } call ticks := by
  refine ⟨bare.sends, bare.schedules, bare.ticks, ?_⟩
  intro other member
  obtain before | last := List.mem_append.mp member
  · exact bare.none other before
  · exact List.mem_singleton.mp last ▸ idle

theorem Bare.nowhere :
    ¬ ∃ effect ∈ session.effects, Keeps worker base effect :=
  fun ⟨effect, member, keeps⟩ => bare.none effect member keeps

theorem routed_steps {topic effect} (idle : ¬ Keeps worker base effect) :
    Steps worker base (routed env topic (sendMode env none none) effect) session (call + calls env topic) ticks
      (Accepts env topic call) := by
  obtain rfl := bare.sends
  obtain ⟨accepted, ran⟩ | ⟨accepted, -, ran⟩ | ⟨error, refused, failed⟩ := routed_cases env topic effect session
  · exact ⟨fun _ => ⟨_, ran, (bare.adds idle).calls _⟩, fun never => absurd accepted never⟩
  · exact ⟨fun _ => ⟨_, ran, bare.calls _⟩, fun never => absurd accepted never⟩
  · exact ⟨fun accepted => absurd accepted refused, fun _ => ⟨error, _, failed, bare.calls _⟩⟩

theorem syncStatus_steps {messageId topic status attempts error} :
    Steps worker base (worker.syncStatus env messageId topic status attempts error) session (call + reports env) (ticks + 2)
      (Reports env call) := by
  have sent := @routed_steps env worker base _ _ _ bare.tick.tick systemTopicWalSync
    (.walSync
      { messageId, topic, workerId := worker.name, status, attempts, lastAttemptAt := env.clock session.ticks, error,
        timestamp := env.clock (session.ticks + 1) }) id
  exact ⟨sent.succeeds, sent.fails⟩

theorem auditMsg_steps {msg result eventType error duration} :
    Steps worker base (worker.auditMsg env msg result eventType error duration) session
      (call + calls env systemTopicAudit) (ticks + 1) True := by
  have sent := @routed_steps env worker base _ _ _ bare.tick systemTopicAudit
    (.audit { messageId := msg.id, topic := msg.topic, eventType, workerId := some worker.name,
              timestamp := env.clock session.ticks, result, error, duration }) id
  refine ⟨fun _ => ?_, fun never => absurd trivial never⟩
  simp only [auditMsg, Bind.bind, EStateM.bind, now, get, getThe, MonadStateOf.get, EStateM.get, set, EStateM.set,
    Pure.pure, EStateM.pure, tryCatch, tryCatchThe, MonadExceptOf.tryCatch, EStateM.tryCatch]
  by_cases accepted : Accepts env systemTopicAudit call
  · obtain ⟨next, ran, later⟩ := sent.succeeds accepted
    exact ⟨next, by simp only [ran], later⟩
  · obtain ⟨refusal, next, ran, later⟩ := sent.fails accepted
    exact ⟨next, by simp only [ran, EStateM.dummyRestore, EStateM.Backtrackable.restore], later⟩

theorem ownSend_safe {msg} :
    Safe worker base (ownSend env msg) session ↔ env.sends call .send = none := by
  obtain rfl := bare.sends
  obtain ⟨taken, ran⟩ | ⟨error, refused, failed⟩ := produce_cases env .send (.requeue msg) session
  · simp only [Safe, ownSend, ran, taken]
  · simp only [Safe, ownSend, failed, refused, reduceCtorEq, iff_false]
    exact bare.nowhere

theorem emit_safe {msg} :
    Safe worker base (emit env msg none none) session ↔ Accepts env msg.topic call := by
  obtain rfl := bare.sends
  obtain ⟨accepted, ran⟩ | ⟨accepted, -, ran⟩ | ⟨error, refused, failed⟩ := routed_cases env msg.topic (.publish msg) session
  · simp only [Safe, emit, ran, accepted]
  · simp only [Safe, emit, ran, accepted]
  · simp only [Safe, emit, failed, refused, iff_false]
    exact bare.nowhere

theorem emitCopies_safe {msg} (workers : List WorkerInfo) (content : msg.payload = base.payload)
    (plain : msg.id = base.id) (own : msg.topic = base.topic ∨ msg.topic = deadLetterTopic worker.topic) :
    Safe worker base (emitCopies env msg none none workers) session ↔ workers = [] ∨ Accepts env msg.topic call := by
  obtain rfl := bare.sends
  cases workers with
  | nil => simp only [Safe, emitCopies, Pure.pure, EStateM.pure, true_or]
  | cons info rest =>
    simp only [reduceCtorEq, false_or]
    have keeps : Keeps worker base (.publish (broadcastCopy msg info)) :=
      ⟨⟨content, .inr ⟨info.workerName, by simp only [broadcastCopy, plain]⟩⟩, own⟩
    obtain ⟨accepted, ran⟩ | ⟨accepted, dropped, ran⟩ | ⟨error, refused, failed⟩ :=
      routed_cases env msg.topic (.publish (broadcastCopy msg info)) session
    · have first : emit env (broadcastCopy msg info) none none session = _ := ran
      have safe := @emitCopies_keeps env worker base msg rest
        { session with
          sends := session.sends + calls env msg.topic
          effects := session.effects ++ [.publish (broadcastCopy msg info)] } _ (by simp) keeps
      simp only [Safe] at safe
      simp only [Safe, emitCopies, Bind.bind, EStateM.bind, first, accepted, iff_true]
      exact safe
    · simp only [Safe, emitCopies_dropped dropped, accepted]
    · have first : emit env (broadcastCopy msg info) none none session = _ := failed
      simp only [Safe, emitCopies, Bind.bind, EStateM.bind, first, refused, iff_false]
      exact bare.nowhere

theorem schedule_safe {record} :
    Safe worker base (schedule env record) session ↔ env.schedules 0 = none := by
  rw [Safe, schedule_eq, bare.schedules]
  cases env.schedules 0 with
  | none => simp
  | some error => simpa using bare.nowhere

theorem throw_loses (error : CoreError) : ¬ Safe worker base (throw error) session := bare.nowhere

theorem send_safe {topic msg} (content : msg.payload = base.payload) (plain : msg.id = base.id)
    (own : msg.topic = base.topic ∨ msg.topic = deadLetterTopic worker.topic) :
    Safe worker base (TopicRouter.send env topic msg none none) session ↔ SendKeeps env topic msg call := by
  unfold TopicRouter.send SendKeeps
  split
  · by_cases available : env.walAvailable = true
    · rw [if_pos available, schedule_safe bare, and_iff_right available]
    · rw [if_neg available]
      exact iff_of_false (throw_loses bare _) fun both => available both.1
  · split
    · by_cases remote : env.nodeType = .worker
      · rw [if_pos remote]
        exact iff_of_false (throw_loses bare _) fun both => both.1 remote
      · rw [if_neg remote, emitCopies_safe bare _ content plain own, and_iff_right remote]
    · exact emit_safe bare

theorem sendToDeadLetter_safe {msg reason processTime} (content : msg.payload = base.payload)
    (plain : msg.id = base.id) :
    Safe worker base (worker.sendToDeadLetter env msg reason processTime) session ↔ LetterKeeps env worker msg call := by
  refine Safe.bind (syncStatus_steps bare) fun middle later => ?_
  refine (Safe.before middle fun sent => ?_).trans (send_safe later content plain (.inr rfl))
  split
  · exact ignored_succeeds _ _
  · exact ⟨sent, rfl⟩

theorem onAck_safe {msg processTime} (business : worker.topic ≠ systemTopicAudit) :
    Safe worker base (worker.onAck env msg processTime) session ↔ SettleKeeps env worker .ack msg call := by
  unfold onAck SettleKeeps
  cases msg.deliveryMode with
  | repeated times =>
    simp only
    split
    next last =>
      have done : Safe worker base (worker.markComplete env msg.id msg.topic msg.attempts) session ↔ Reports env call :=
        Safe.last (syncStatus_steps bare)
      simp only [done, last, true_or, and_true]
    next more =>
      simp only [more, false_or]
      refine Safe.bind (syncStatus_steps bare) fun middle later => ?_
      exact Safe.bind (syncStatus_steps later) fun _ bare => ownSend_safe bare
  | standard | broadcast =>
    simp only [if_pos business]
    exact (Safe.bind (auditMsg_steps bare) fun _ later => Safe.last (syncStatus_steps later)).trans (.of_eq (true_and _))

end

theorem onNoAck_safe {msg retryAfter maxRetries processTime session call} (bare : Bare worker msg session call 5) :
    Safe worker msg (worker.onNoAck env msg retryAfter maxRetries processTime) session ↔
      SettleKeeps env worker (.noAck retryAfter maxRetries) msg call := by
  unfold onNoAck SettleKeeps
  refine Safe.bind (syncStatus_steps bare) fun middle later => ?_
  split
  · exact sendToDeadLetter_safe later rfl rfl
  · cases retryAfter with
    | none => exact ownSend_safe later
    | some delay => exact Safe.now later fun _ bare => send_safe bare rfl rfl (.inl rfl)

theorem settle_safe {answer msg processTime session call} (business : worker.topic ≠ systemTopicAudit)
    (bare : Bare worker msg session call 5) :
    Safe worker msg (worker.settle env answer msg processTime) session ↔ SettleKeeps env worker answer msg call := by
  cases answer with
  | ack => exact onAck_safe bare business
  | noAck retryAfter maxRetries => exact onNoAck_safe bare
  | dead reason =>
    exact Safe.bind (syncStatus_steps bare) fun _ later => sendToDeadLetter_safe later rfl rfl

theorem processMsg_safe {run} (msg : EMessage) (business : isSystemTopic worker.topic = false) :
    Safe worker run.message (worker.processMsg env run msg) Session.start ↔ NoneFails env worker run := by
  have other : worker.topic ≠ systemTopicAudit := ne_audit_of_business business
  have start : Bare worker run.message Session.start 0 0 := ⟨rfl, rfl, rfl, fun _ member => by cases member⟩
  have verdict {session : Session} (bare : Bare worker run.message session (calls env systemTopicAudit + reports env) 5) :
      Safe worker run.message
        (liftExcept (durationSince (env.clock 4) (env.clock 1)) >>= worker.settle env (worker.status run) run.message)
        session ↔
      ClockAdvances env ∧
        SettleKeeps env worker (worker.status run) run.message (calls env systemTopicAudit + reports env) := by
    by_cases clock : env.clock 1 ≤ env.clock 4
    · simp only [durationSince, clock, if_true, liftExcept, ClockAdvances, true_and]
      exact settle_safe other bare
    · simp only [durationSince, clock, if_false, liftExcept, ClockAdvances, false_and, iff_false]
      exact throw_loses bare _
  have steps : Safe worker run.message (worker.processMsg env run msg) Session.start ↔
      Reports env (calls env systemTopicAudit) ∧ ClockAdvances env ∧
        SettleKeeps env worker (worker.status run) run.message (calls env systemTopicAudit + reports env) := by
    simp only [processMsg, business, Bool.not_false, Bool.true_and, decide_eq_true other, if_true, Bool.false_eq_true, if_false]
    refine (Safe.bind (auditMsg_steps start) fun announced bare => ?_).trans (.of_eq (true_and _))
    rw [Nat.zero_add] at bare
    refine Safe.now bare fun timed bare => ?_
    refine Safe.bind (syncStatus_steps bare) fun marked bare => ?_
    exact Safe.now bare fun _ bare => verdict bare
  rw [steps]
  constructor
  · intro kept
    exact ⟨kept.1, kept.2.1, kept.2.2⟩
  · intro kept
    exact ⟨kept.1, kept.2, kept.3⟩

end

theorem consume_effects (env : Env) (worker : Worker) (run : PipelineRun) (msg : EMessage) :
    (worker.consume env run msg).outcome.1 = (worker.processMsg env run msg).outcome.1 :=
  outcome_ignore (worker.processMsg env run msg)

/-- A failed message has a copy left exactly when none of the calls its outcome needs fails. -/
theorem error_keeps_copy_iff (env : Env) (worker : Worker) (run : PipelineRun) (msg : EMessage)
    (business : isSystemTopic worker.topic = false) :
    ((∃ error, (worker.processMsg env run msg).outcome.2 = .error error) →
      ∃ effect ∈ (worker.consume env run msg).outcome.1, Keeps worker run.message effect) ↔ NoneFails env worker run := by
  rw [← processMsg_safe msg business, consume_effects]
  simp only [TaskM.outcome, EStateM.run, Safe]
  cases worker.processMsg env run msg Session.start with
  | ok => simp
  | error => simp

section
private def packer : Worker := { topic := "orders", name := "w" }

private def notice : EMessage := EMessage.new "m" 0 "orders" [] .broadcast none

private def readers : Table WorkerInfo :=
  ((∅ : Table WorkerInfo).insert "a" ⟨"a", "dead_letter.orders", 0⟩).insert "b" ⟨"b", "dead_letter.orders", 0⟩

private def shelf : Env where
  nodeType := .host
  registry := readers
  sends call _ := if call = 5 then some .processTimeError else none

/-- Of a letter to two readers one copy is on its shelf when the other fails. -/
theorem half_sent_letter_kept :
    (∃ error, (packer.processMsg shelf { answer := .dead .explicit, message := notice } notice).outcome.2 = .error error) ∧
      ∃ effect ∈ (packer.consume shelf { answer := .dead .explicit, message := notice } notice).outcome.1,
        Keeps packer notice effect := by
  have failed : (packer.processMsg shelf { answer := .dead .explicit, message := notice } notice).outcome.2 =
      .error .processTimeError := by decide +kernel
  refine ⟨⟨_, failed⟩, (error_keeps_copy_iff shelf packer _ notice (by decide)).mpr ?_ ⟨_, failed⟩⟩
  refine ⟨rfl, Int.le_refl _, rfl, rfl, ?_⟩
  exact ⟨by decide, .inr rfl⟩

private def full : Env where
  nodeType := .host
  registry := ∅
  sends call _ := if call = 3 then some .processTimeError else none

private def order : EMessage := EMessage.new "m" 0 "orders" [] .standard none

theorem refused_retry_swallowed :
    (packer.processMsg full { answer := .noAck none 3, message := order } order).outcome.2 = .error .processTimeError ∧
      ∀ effect ∈ (packer.consume full { answer := .noAck none 3, message := order } order).outcome.1,
        ¬ Keeps packer order effect := by
  refine ⟨by decide +kernel, ?_⟩
  have reports : ∀ effect ∈ (packer.consume full { answer := .noAck none 3, message := order } order).outcome.1,
      business effect = none := by decide +kernel
  intro effect member keeps
  have report := reports effect member
  cases effect with
  | audit | walSync => exact keeps
  | publish | requeue | schedule => cases report

end

end EventBase.Proofs.LostOnError
