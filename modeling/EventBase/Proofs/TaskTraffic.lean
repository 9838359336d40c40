import EventBase.Proofs.TaskLogic
import EventBase.TopicPlane

/-! What a task can leave on a topic and in the delay store, whatever its calls
are answered. -/

namespace EventBase.Proofs.TaskTraffic
open TaskLogic

/-- What an effect leaves on the topic satisfies `moving`, what it leaves in the
delay store `delayed`. -/
structure Lands (topic : String) (moving delayed : EMessage → Prop) (effect : Effect) : Prop where
  outgoing : ∀ msg, outgoing topic effect = some msg → moving msg
  scheduled : ∀ msg, scheduled effect = some msg → delayed msg

section
variable {topic : String} {moving delayed : EMessage → Prop}

theorem Lands.imp {moving' delayed' effect} (lands : Lands topic moving delayed effect)
    (moves : ∀ msg, moving msg → moving' msg) (delays : ∀ msg, delayed msg → delayed' msg) :
    Lands topic moving' delayed' effect :=
  ⟨fun msg sent => moves msg (lands.outgoing msg sent), fun msg sent => delays msg (lands.scheduled msg sent)⟩

theorem lands_audit (record : AuditRecord) : Lands topic moving delayed (.audit record) :=
  ⟨by simp [outgoing], by simp [scheduled]⟩

theorem lands_walSync (sync : WalSyncMessage) : Lands topic moving delayed (.walSync sync) :=
  ⟨by simp [outgoing], by simp [scheduled]⟩

theorem lands_requeue {msg} (moves : moving msg) : Lands topic moving delayed (.requeue msg) := by
  refine ⟨?_, by simp [scheduled]⟩
  rintro _ ⟨⟩
  exact moves

theorem lands_publish {msg} (moves : msg.topic = topic → moving msg) :
    Lands topic moving delayed (.publish msg) := by
  refine ⟨fun sent found => ?_, by simp [scheduled]⟩
  simp only [outgoing] at found
  split at found
  · next here =>
    cases found
    exact moves here
  · cases found

theorem lands_schedule {msg} (delays : delayed msg) :
    Lands topic moving delayed (.schedule (WalRecord.fromMsg msg)) := by
  refine ⟨by simp [outgoing], ?_⟩
  rintro _ ⟨⟩
  exact delays

end

section
variable {topic : String} {env : Env} {moving delayed : EMessage → Prop}

theorem send_lands {destination msg} (later : msg.deliverAt.isSome = true → delayed msg)
    (single : msg.deliveryMode ≠ .broadcast → destination = topic → moving { msg with topic := destination })
    (fanned : msg.deliveryMode = .broadcast → msg.topic = topic →
      ∀ info ∈ getWorkers env.registry destination, moving (broadcastCopy msg info)) :
    EmitsOnly (Lands topic moving delayed) (TopicRouter.send env destination msg none none) := by
  refine .send env (fun due => lands_schedule (later due)) (fun _ mode info member => ?_) fun _ mode => ?_
  · exact lands_publish fun here => fanned mode here info member
  · exact lands_publish fun here => single mode here

def letter (worker : Worker) (msg : EMessage) : EMessage :=
  { msg with topic := Worker.deadLetterTopic worker.topic, toWorker := none }

/-- What a worker puts back or sends on, by the answer of its pipeline. -/
structure Settles (topic : String) (env : Env) (moving delayed : EMessage → Prop) (worker : Worker) (answer : Ack)
    (base : EMessage) : Prop where
  repeated : answer = .ack → moving { base with consumedCount := base.consumedCount + 1 }
  retried : ∀ maxRetries, answer = .noAck none maxRetries → ¬ maxRetries ≤ base.attempts + 1 →
    moving { base with attempts := base.attempts + 1 }
  postponed : ∀ delay maxRetries deliverAt, answer = .noAck (some delay) maxRetries → ¬ maxRetries ≤ base.attempts + 1 →
    EmitsOnly (Lands topic moving delayed)
      (TopicRouter.send env base.topic { base with attempts := base.attempts + 1, deliverAt } none none)
  exhausted : ∀ retryAfter maxRetries, answer = .noAck retryAfter maxRetries → maxRetries ≤ base.attempts + 1 →
    EmitsOnly (Lands topic moving delayed) (TopicRouter.send env (Worker.deadLetterTopic worker.topic)
      (letter worker { base with attempts := base.attempts + 1 }) none none)
  dead : ∀ reason, answer = .dead reason →
    EmitsOnly (Lands topic moving delayed)
      (TopicRouter.send env (Worker.deadLetterTopic worker.topic) (letter worker base) none none)

theorem sendToDeadLetter_lands (worker : Worker) {msg} (reason : DeadReason) (processTime : Duration)
    (sends : EmitsOnly (Lands topic moving delayed)
      (TopicRouter.send env (Worker.deadLetterTopic worker.topic) (letter worker msg) none none)) :
    EmitsOnly (Lands topic moving delayed) (worker.sendToDeadLetter env msg reason processTime) := by
  refine (EmitsOnly.syncStatus env worker lands_walSync).bind fun _ => sends.bind fun _ => ?_
  exact .cond (fun _ => .auditMsg env worker lands_audit) fun _ => .pure ()

theorem onAck_lands (worker : Worker) (msg : EMessage) (processTime : Duration)
    (moves : moving { msg with consumedCount := msg.consumedCount + 1 }) :
    EmitsOnly (Lands topic moving delayed) (worker.onAck env msg processTime) := by
  unfold Worker.onAck
  split
  · refine .cond (fun _ => .syncStatus env worker lands_walSync) fun _ => ?_
    refine (EmitsOnly.syncStatus env worker lands_walSync).bind fun _ => ?_
    exact (EmitsOnly.syncStatus env worker lands_walSync).bind fun _ => .produce env _ (lands_requeue moves)
  · have complete : EmitsOnly (Lands topic moving delayed) (worker.markComplete env msg.id msg.topic msg.attempts) :=
      .syncStatus env worker lands_walSync
    exact .cond (fun _ => (EmitsOnly.auditMsg env worker lands_audit).bind fun _ => complete) fun _ => complete

theorem settle_lands {worker answer base} (settles : Settles topic env moving delayed worker answer base)
    (processTime : Duration) :
    EmitsOnly (Lands topic moving delayed) (worker.settle env answer base processTime) := by
  cases answer with
  | ack => exact onAck_lands worker base processTime (settles.repeated rfl)
  | noAck retryAfter maxRetries =>
    refine (EmitsOnly.syncStatus env worker lands_walSync).bind fun _ => ?_
    refine .cond (fun spent => ?_) fun budget => ?_
    · exact sendToDeadLetter_lands worker _ _ (settles.exhausted retryAfter maxRetries rfl spent)
    · cases retryAfter with
      | none => exact .produce env _ (lands_requeue (settles.retried maxRetries rfl budget))
      | some delay => exact (EmitsOnly.now env).bind fun time => settles.postponed delay maxRetries _ rfl budget
  | dead reason =>
    refine (EmitsOnly.syncStatus env worker lands_walSync).bind fun _ => ?_
    exact sendToDeadLetter_lands worker _ _ (settles.dead reason rfl)

theorem processMsg_lands {worker run} (msg : EMessage)
    (settles : Settles topic env moving delayed worker (worker.status run) run.message) :
    EmitsOnly (Lands topic moving delayed) (worker.processMsg env run msg) :=
  .processMsg env worker lands_audit lands_walSync fun _ => settle_lands settles

end

def Descends (topic : String) (env : Env) (base msg : EMessage) : Prop :=
  msg.toWorker = base.toWorker ∨ msg.toWorker = none ∨
    base.deliveryMode = .broadcast ∧ ∃ info ∈ getWorkers env.registry topic, msg.toWorker = some info.workerName

structure Kin (base msg : EMessage) : Prop where
  id : msg.id = base.id
  mode : msg.deliveryMode = base.deliveryMode
  target : msg.toWorker = base.toWorker ∨ msg.toWorker = none

theorem Kin.descends {topic env base msg} (kin : Kin base msg) :
    Descends topic env base msg := kin.target.imp_right .inl

/-- The fields that decide where a message goes are those of `base`. -/
structure SameRoute (base msg : EMessage) : Prop where
  target : msg.toWorker = base.toWorker
  topic : msg.topic = base.topic
  mode : msg.deliveryMode = base.deliveryMode

def Leaves (topic : String) (env : Env) (base : EMessage) : Effect → Prop := Lands topic (Descends topic env base) (Kin base)

section
variable {topic : String} {env : Env} {base : EMessage}

theorem send_leaves {destination msg} (kin : Kin base msg) (here : destination = topic ∨ destination = msg.topic) :
    EmitsOnly (Leaves topic env base) (TopicRouter.send env destination msg none none) := by
  refine send_lands (fun _ => kin) (fun _ _ => Kin.descends ⟨kin.id, kin.mode, kin.target⟩) ?_
  intro mode same info member
  refine .inr (.inr ⟨kin.mode ▸ mode, info, ?_, rfl⟩)
  rcases here with rfl | rfl
  · exact member
  · rwa [← same]

theorem deliverDelayed_leaves (msg : EMessage) :
    EmitsOnly (Leaves topic env msg) (deliverDelayed env (WalRecord.fromMsg msg)) := by
  have due : Kin msg { msg with deliverAt := none } := ⟨rfl, rfl, .inl rfl⟩
  exact (send_leaves due (.inr rfl)).ignore

theorem deliverDelayed_sends (record : WalRecord) :
    EmitsOnly (Lands topic (fun _ => True) fun _ => False) (deliverDelayed env record) :=
  (send_lands nofun (fun _ _ => trivial) fun _ _ _ _ => trivial).ignore

theorem processMsg_leaves (worker : Worker) (run : PipelineRun) (msg : EMessage) :
    EmitsOnly (Leaves topic env run.message) (worker.processMsg env run msg) := by
  refine processMsg_lands msg ⟨fun _ => .inl rfl, fun _ _ _ => .inl rfl, ?_, ?_, ?_⟩
  · exact fun delay maxRetries deliverAt _ _ => send_leaves ⟨rfl, rfl, .inl rfl⟩ (.inr rfl)
  · exact fun retryAfter maxRetries _ _ => send_leaves ⟨rfl, rfl, .inr rfl⟩ (.inr rfl)
  · exact fun reason _ => send_leaves ⟨rfl, rfl, .inr rfl⟩ (.inr rfl)

theorem processMsg_keeps (worker : Worker) (run : PipelineRun) (msg : EMessage)
    (answers : worker.status run = .ack ∨
      ∃ maxRetries, worker.status run = .noAck none maxRetries ∧ ¬ maxRetries ≤ run.message.attempts + 1) :
    EmitsOnly (Lands topic (SameRoute run.message) fun _ => False) (worker.processMsg env run msg) := by
  refine processMsg_lands msg ⟨fun _ => ⟨rfl, rfl, rfl⟩, fun _ _ _ => ⟨rfl, rfl, rfl⟩, ?_, ?_, ?_⟩
  · intro delay maxRetries deliverAt noAck
    rcases answers with ack | ⟨_, prompt, _⟩
    · cases ack.symm.trans noAck
    · cases prompt.symm.trans noAck
  · intro retryAfter maxRetries noAck spent
    rcases answers with ack | ⟨_, prompt, budget⟩
    · cases ack.symm.trans noAck
    · cases prompt.symm.trans noAck
      exact absurd spent budget
  · intro reason dead
    rcases answers with ack | ⟨_, prompt, _⟩
    · cases ack.symm.trans dead
    · cases prompt.symm.trans dead

end

end EventBase.Proofs.TaskTraffic
