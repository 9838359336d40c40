import EventBase.Proofs.Accepted

/-! When a message that is out of retries reaches the dead letter topic, and what the letter
keeps of it. -/

namespace EventBase.Proofs.DeadLetter
open TaskLogic Accepted Worker

/-- Every way of dying: an explicit answer, a timeout, or a spent retry budget. -/
def Dies (worker : Worker) (run : PipelineRun) : Prop :=
  (∃ reason, worker.status run = .dead reason) ∨
    ∃ retryAfter maxRetries, worker.status run = .noAck retryAfter maxRetries ∧
      maxRetries ≤ run.message.attempts + 1

def letter? (topic : String) : Effect → Option EMessage
  | .publish msg => if msg.topic = deadLetterTopic topic then some msg else none
  | _ => none

def letters (topic : String) (effects : List Effect) : List EMessage := effects.filterMap (letter? topic)

/-- The message processed ends on the shelf once, unchanged and untargeted, and
the call reports success. -/
def Shelved (env : Env) (worker : Worker) (run : PipelineRun) (msg : EMessage) : Prop :=
  let outcome := (processMsg env worker run msg).outcome
  outcome.2 = .ok () ∧ ∃ shelved, letters worker.topic outcome.1 = [shelved] ∧
    shelved.id = msg.id ∧ shelved.payload = msg.payload ∧ shelved.toWorker = none

structure Deliverable (env : Env) (worker : Worker) (run : PipelineRun) (msg : EMessage) : Prop where
  business : isSystemTopic worker.topic = false
  mode : run.message.deliveryMode ≠ .broadcast
  immediate : run.message.deliverAt = none
  id : run.message.id = msg.id
  payload : run.message.payload = msg.payload
  clock : ClockAdvances env

theorem letters_of_business {topic effects} (reports : effects.filterMap business = []) :
    letters topic effects = [] := by
  rw [List.filterMap_eq_nil_iff] at reports
  refine List.filterMap_eq_nil_iff.mpr fun effect member => ?_
  have report := reports effect member
  cases effect <;> simp_all [business, letter?]

section
variable {env : Env} {worker : Worker} (accepts : ∀ call mode, env.sends call mode = none)

include accepts in
private theorem mark_posts (worker : Worker) (messageId topic : String) (status : WalRecordState) (attempts : UInt32)
    (error : Option String) :
    Posts (letter? worker.topic) (syncStatus env worker messageId topic status attempts error) 2 [] :=
  syncStatus_posts _ accepts worker messageId topic status attempts error fun _ => rfl

variable (registered : ∀ routes, env.routes = some routes → deadLetterTopic worker.topic ∈ routes)

include accepts registered in
private theorem send_posts (msg : EMessage) (mode : msg.deliveryMode ≠ .broadcast)
    (immediate : msg.deliverAt = none) (addressed : msg.topic = deadLetterTopic worker.topic) :
    Posts (letter? worker.topic) (TopicRouter.send env (deadLetterTopic worker.topic) msg none none) 0 [msg] := by
  have same : { msg with topic := deadLetterTopic worker.topic } = msg := by rw [← addressed]
  have posted := routed_posts (letter? worker.topic) accepts registered (sendMode env none none) (.publish msg)
  simp only [letter?, addressed, if_true, Option.toList_some] at posted
  unfold TopicRouter.send
  rw [if_neg (by simp [immediate]), if_neg mode, same, emit, addressed]
  exact posted

def letterOf (topic : String) (msg : EMessage) : EMessage :=
  { msg with topic := deadLetterTopic topic, toWorker := none }

include accepts registered in
private theorem sendToDeadLetter_posts (msg : EMessage) (reason : DeadReason) (processTime : Duration)
    (mode : msg.deliveryMode ≠ .broadcast) (immediate : msg.deliverAt = none) :
    ∃ ticks, Posts (letter? worker.topic) (sendToDeadLetter env worker msg reason processTime) ticks
      [letterOf worker.topic msg] := by
  have sent := send_posts accepts registered (letterOf worker.topic msg) mode immediate rfl
  have marked := mark_posts accepts worker msg.id (deadLetterTopic worker.topic) .failed msg.attempts
    (some reason.toText)
  by_cases audited : worker.topic = systemTopicAudit
  · refine ⟨2 + (0 + 0), marked.after (sent.before ?_)⟩
    rw [if_neg (by simp [audited])]
    exact .pure
  · refine ⟨2 + (0 + 1), marked.after (sent.before ?_)⟩
    rw [if_pos audited]
    exact auditMsg_posts _ accepts worker _ _ _ _ _ fun _ => rfl

include accepts registered in
private theorem settle_posts (run : PipelineRun) (processTime : Duration) (dies : Dies worker run)
    (mode : run.message.deliveryMode ≠ .broadcast) (immediate : run.message.deliverAt = none) :
    ∃ ticks shelved, shelved.id = run.message.id ∧ shelved.payload = run.message.payload ∧ shelved.toWorker = none ∧
      Posts (letter? worker.topic) (settle env worker (worker.status run) run.message processTime) ticks [shelved] := by
  rcases dies with ⟨reason, answer⟩ | ⟨retryAfter, maxRetries, answer, spent⟩
  · obtain ⟨ticks, posts⟩ := sendToDeadLetter_posts accepts registered run.message reason processTime mode immediate
    refine ⟨2 + ticks, letterOf worker.topic run.message, rfl, rfl, rfl, ?_⟩
    rw [answer]
    exact (mark_posts accepts worker _ _ _ _ _).after posts
  · obtain ⟨ticks, posts⟩ := sendToDeadLetter_posts accepts registered
      { run.message with attempts := run.message.attempts + 1 } .maxRetriesExceeded processTime mode immediate
    refine ⟨2 + ticks, letterOf worker.topic { run.message with attempts := run.message.attempts + 1 }, rfl, rfl, rfl, ?_⟩
    rw [answer]
    refine (mark_posts accepts worker _ _ _ _ _).after ?_
    simpa only [spent, if_true] using posts

include accepts registered in
private theorem processMsg_posts (run : PipelineRun) (msg : EMessage) (dies : Dies worker run)
    (business : isSystemTopic worker.topic = false) (mode : run.message.deliveryMode ≠ .broadcast)
    (immediate : run.message.deliverAt = none) (clock : ClockAdvances env) :
    ∃ shelved, shelved.id = run.message.id ∧ shelved.payload = run.message.payload ∧ shelved.toWorker = none ∧
      letters worker.topic (processMsg env worker run msg).outcome.1 = [shelved] ∧
      (processMsg env worker run msg).outcome.2 = .ok () := by
  obtain ⟨middle, reports, reaches⟩ := processMsg_reaches_settle accepts worker run msg business
  obtain ⟨_, shelved, id, payload, untargeted, posts⟩ := settle_posts accepts registered run
    (env.clock 4 - env.clock 1).toNat dies mode immediate
  obtain ⟨final, ran, -, posted⟩ := posts middle
  have settled : processMsg env worker run msg Session.start = .ok () final := by
    rw [reaches]
    simpa only [durationSince, if_pos (show env.clock 1 ≤ env.clock 4 from clock), liftExcept, pure_bind] using ran
  refine ⟨shelved, id, payload, untargeted, ?_, ?_⟩
  · have bare : middle.effects.filterMap (letter? worker.topic) = [] := letters_of_business reports
    simp only [TaskM.outcome, EStateM.run, settled, letters, posted, bare, List.nil_append]
  · simp only [TaskM.outcome, EStateM.run, settled]

include accepts in
private theorem processMsg_fails (run : PipelineRun) (msg : EMessage) (business : isSystemTopic worker.topic = false)
    (back : ¬ ClockAdvances env) : (processMsg env worker run msg).outcome.2 = .error .processTimeError := by
  obtain ⟨middle, -, reaches⟩ := processMsg_reaches_settle accepts worker run msg business
  have failed : processMsg env worker run msg Session.start = .error .processTimeError middle := by
    rw [reaches]
    simp only [durationSince, if_neg (show ¬ env.clock 1 ≤ env.clock 4 from back), liftExcept]
    rfl
  simp only [TaskM.outcome, EStateM.run, failed]

end

def Unshelved (topic : String) (effect : Effect) : Prop :=
  ∀ shelved, letter? topic effect = some shelved → shelved.toWorker ≠ none

section
variable (env : Env) (worker : Worker)

private theorem send_unshelved (topic : String) (msg : EMessage)
    (diverted : msg.deliveryMode = .broadcast ∨ msg.deliverAt ≠ none) :
    EmitsOnly (Unshelved worker.topic) (TopicRouter.send env topic msg none none) := by
  have other {effect : Effect} (none : letter? worker.topic effect = none) : Unshelved worker.topic effect := by
    intro shelved found
    simp [none] at found
  refine .send env (fun _ => other rfl) (fun _ _ info _ => ?_) fun immediate mode => ?_
  · intro shelved found
    simp only [letter?] at found
    split at found
    · cases found
      exact Option.some_ne_none _
    · cases found
  · rcases diverted with broadcast | delayed
    · exact absurd broadcast mode
    · exact absurd immediate delayed

private theorem sendToDeadLetter_unshelved (msg : EMessage) (reason : DeadReason) (processTime : Duration)
    (diverted : msg.deliveryMode = .broadcast ∨ msg.deliverAt ≠ none) :
    EmitsOnly (Unshelved worker.topic) (sendToDeadLetter env worker msg reason processTime) := by
  refine (EmitsOnly.syncStatus env worker (by simp [Unshelved, letter?])).bind fun _ => ?_
  refine (send_unshelved env worker _ (letterOf worker.topic msg) diverted).bind fun _ => ?_
  exact .cond (fun _ => .auditMsg env worker (by simp [Unshelved, letter?])) fun _ => .pure ()

private theorem settle_unshelved (run : PipelineRun) (processTime : Duration) (dies : Dies worker run)
    (diverted : run.message.deliveryMode = .broadcast ∨ run.message.deliverAt ≠ none) :
    EmitsOnly (Unshelved worker.topic) (settle env worker (worker.status run) run.message processTime) := by
  rcases dies with ⟨reason, answer⟩ | ⟨retryAfter, maxRetries, answer, spent⟩
  · rw [answer]
    refine (EmitsOnly.syncStatus env worker (by simp [Unshelved, letter?])).bind fun _ => ?_
    exact sendToDeadLetter_unshelved env worker _ _ _ diverted
  · rw [answer]
    refine (EmitsOnly.syncStatus env worker (by simp [Unshelved, letter?])).bind fun _ => ?_
    simp only [spent, if_true]
    exact sendToDeadLetter_unshelved env worker _ _ _ diverted

private theorem processMsg_unshelved (run : PipelineRun) (msg : EMessage) (dies : Dies worker run)
    (diverted : isSystemTopic worker.topic = true ∨ run.message.deliveryMode = .broadcast ∨
      run.message.deliverAt ≠ none) :
    EmitsOnly (Unshelved worker.topic) (processMsg env worker run msg) := by
  refine .processMsg env worker (by simp [Unshelved, letter?]) (by simp [Unshelved, letter?]) fun business processTime => ?_
  exact settle_unshelved env worker run processTime dies (diverted.resolve_left business)

end

/-- With every send accepted and the shelf registered, a dying message is shelved
exactly when nothing diverts its letter. -/
theorem shelved_iff_deliverable (env : Env) (worker : Worker) (run : PipelineRun) (msg : EMessage)
    (accepts : ∀ call mode, env.sends call mode = none)
    (registered : ∀ routes, env.routes = some routes → deadLetterTopic worker.topic ∈ routes)
    (dies : Dies worker run) :
    Shelved env worker run msg ↔ Deliverable env worker run msg := by
  constructor
  · rintro ⟨succeeds, shelved, only, id, payload, untargeted⟩
    have straight : ¬ (isSystemTopic worker.topic = true ∨ run.message.deliveryMode = .broadcast ∨
        run.message.deliverAt ≠ none) := by
      intro diverted
      have unshelved := Emits.outcome (processMsg_unshelved env worker run msg dies diverted)
      have member : shelved ∈ letters worker.topic (processMsg env worker run msg).outcome.1 := by simp [only]
      obtain ⟨effect, emitted, found⟩ := List.mem_filterMap.mp member
      exact unshelved effect emitted shelved found untargeted
    simp only [not_or, Bool.not_eq_true, ne_eq, not_not] at straight
    obtain ⟨business, mode, immediate⟩ := straight
    have clock : ClockAdvances env := by
      by_contra back
      simp [processMsg_fails accepts run msg business back] at succeeds
    obtain ⟨same, sameId, samePayload, -, shelf, -⟩ :=
      processMsg_posts accepts registered run msg dies business mode immediate clock
    obtain rfl : same = shelved := by simpa [shelf] using only
    exact ⟨business, mode, immediate, sameId.symm.trans id, samePayload.symm.trans payload, clock⟩
  · intro deliverable
    obtain ⟨shelved, id, payload, untargeted, shelf, succeeds⟩ := processMsg_posts accepts registered run msg dies
      deliverable.business deliverable.mode deliverable.immediate deliverable.clock
    exact ⟨succeeds, shelved, shelf, id.trans deliverable.id, payload.trans deliverable.payload, untargeted⟩

section
variable (nodeType : NodeType) (mode : DeliveryMode)

def ordersNode : Env where
  nodeType := nodeType
  registry := ∅
  routes := some ["orders", "dead_letter.orders"]

def ordersWorker : Worker := { topic := "orders", name := "w" }

def order : EMessage := EMessage.new "m-w" 0 "orders" [7] mode (some "w")

def refusal : PipelineRun := { answer := .dead .explicit, message := order mode }

end

theorem standard_order_shelved :
    Dies ordersWorker (refusal .standard) ∧
      Shelved (ordersNode .worker) ordersWorker (refusal .standard) (order .standard) := by
  have dies : Dies ordersWorker (refusal .standard) := .inl ⟨.explicit, rfl⟩
  refine ⟨dies, (shelved_iff_deliverable _ _ _ _ (fun _ _ => rfl) ?_ dies).mpr ?_⟩
  · rintro _ ⟨⟩
    decide
  · exact ⟨by decide, by decide, rfl, rfl, rfl, Int.le_refl 0⟩

/-- A broadcast copy that dies on a Worker node has its letter refused, although
every send is accepted and the shelf exists. -/
theorem broadcast_order_not_shelved :
    (∀ call mode, (ordersNode .worker).sends call mode = none) ∧
      (∀ routes, (ordersNode .worker).routes = some routes → deadLetterTopic ordersWorker.topic ∈ routes) ∧
      Dies ordersWorker (refusal .broadcast) ∧
      ¬ Shelved (ordersNode .worker) ordersWorker (refusal .broadcast) (order .broadcast) := by
  refine ⟨fun _ _ => rfl, ?_, .inl ⟨.explicit, rfl⟩, ?_⟩
  · rintro _ ⟨⟩
    decide
  · rintro ⟨succeeds, -⟩
    have refused : (processMsg (ordersNode .worker) ordersWorker (refusal .broadcast) (order .broadcast)).outcome.2 =
        .error (.unsupported "Unsupported node type, send broadcast message must host") := by decide
    rw [refused] at succeeds
    cases succeeds

end EventBase.Proofs.DeadLetter
