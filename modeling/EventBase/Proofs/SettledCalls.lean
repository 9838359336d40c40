import EventBase.LoggedWork
import EventBase.Proofs.StatusReports

/-! A call that gets its message settled says so: what it reports as pending it also reports
otherwise afterwards, or passes on. -/

namespace EventBase.Proofs.SettledCalls
open TaskLogic StatusReports List

variable {status : WalRecordState} {topic : String} {error : Option String}

/-- The effect takes the message out of the pending ones, or makes another copy of it. -/
def Settling (message : EMessage) : Effect → Prop
  | .walSync sync => sync.messageId = message.id ∧ sync.status ≠ .pending
  | .publish other | .requeue other => other.id = message.id ∧ other.topic = message.topic
  | .schedule record => record.message.id = message.id
  | .audit _ => False

def Settles (message : EMessage) (effects : List Effect) : Prop := ∃ effect ∈ effects, Settling message effect

def Answered (message : EMessage) : List Effect → Prop
  | [] => True
  | effect :: rest => (mark? effect = some (message.id, .pending) → Settles message rest) ∧ Answered message rest

/-- The call's last word on the message is not that it is pending. -/
structure Concludes (message : EMessage) (effects : List Effect) : Prop where
  settles : Settles message effects
  answered : Answered message effects

section
variable {message : EMessage} {first second : List Effect}

theorem Settles.append_left (settles : Settles message first) : Settles message (first ++ second) := by
  obtain ⟨effect, member, settling⟩ := settles
  exact ⟨effect, mem_append_left _ member, settling⟩

theorem Settles.append_right (settles : Settles message second) : Settles message (first ++ second) := by
  obtain ⟨effect, member, settling⟩ := settles
  exact ⟨effect, mem_append_right _ member, settling⟩

theorem Answered.append (head : Answered message first) (tail : Answered message second) :
    Answered message (first ++ second) := by
  induction first with
  | nil => exact tail
  | cons effect rest ih => exact ⟨fun pending => (head.1 pending).append_left, ih head.2⟩

theorem Answered.after (tail : Answered message second) (settles : Settles message second) :
    Answered message (first ++ second) := by
  induction first with
  | nil => exact tail
  | cons effect rest ih => exact ⟨fun _ => settles.append_right, ih⟩

theorem Answered.of_marks (quiet : (message.id, .pending) ∉ marks first) : Answered message first := by
  induction first with
  | nil => trivial
  | cons effect rest ih =>
    refine ⟨fun pending => absurd ?_ quiet, ih fun later => quiet ?_⟩
    · exact mem_filterMap.mpr ⟨effect, mem_cons_self, pending⟩
    · exact ((sublist_cons_self effect rest).filterMap mark?).subset later

theorem settles_of_mark (reported : (message.id, status) ∈ marks first) (known : status ≠ .pending) :
    Settles message first := by
  obtain ⟨effect, member, marked⟩ := mem_filterMap.mp reported
  refine ⟨effect, member, ?_⟩
  cases effect with
  | walSync sync =>
    simp only [mark?, Option.some.injEq, Prod.mk.injEq] at marked
    exact ⟨marked.1, marked.2 ▸ known⟩
  | audit | publish | requeue | schedule => cases marked

end

theorem pending_planned {worker run msg id} (planned : (id, .pending) ∈ plan worker run msg) :
    .pending ∈ verdict (worker.status run) run.message := by
  unfold plan at planned
  split at planned
  · cases planned
  · obtain wrong | later := mem_cons.mp planned
    · cases wrong
    · obtain ⟨status, member, same⟩ := mem_map.mp later
      cases same
      exact member

def Succeeds {α : Type} (task : TaskM α) (holds : List Effect → Prop) : Prop :=
  Emits task fun added result => ∀ value, result = .ok value → holds added

section
variable {α β : Type} {holds more : List Effect → Prop}

theorem Succeeds.weaken {task : TaskM α} (succeeds : Succeeds task holds) (implies : ∀ added, holds added → more added) :
    Succeeds task more := Emits.weaken succeeds fun added _ given value done => implies added (given value done)

theorem Succeeds.pure (value : α) (nothing : holds []) : Succeeds (Pure.pure value : TaskM α) holds :=
  Emits.pure value fun _ _ => nothing

theorem Succeeds.bind {all : List Effect → Prop} {task : TaskM α} {next : α → TaskM β} (first : Succeeds task holds)
    (rest : ∀ value, Succeeds (next value) more) (together : ∀ added later, holds added → more later → all (added ++ later)) :
    Succeeds (task >>= next) all := by
  refine Emits.bind (Emits.weaken first fun added result given => ?_)
  cases result with
  | error error => exact fun _ failed => by cases failed
  | ok value =>
    refine Emits.weaken (rest value) fun later final also result done => ?_
    exact together added later (given value rfl) (also result done)

theorem Succeeds.now {env} {next : SystemTime → TaskM β} (rest : ∀ time, Succeeds (next time) holds) :
    Succeeds (EventBase.now env >>= next) holds := Emits.bind (now_emits env fun tick => rest (env.clock tick))

theorem Succeeds.liftExcept {result : Except CoreError α} {next : α → TaskM β} (rest : ∀ value, Succeeds (next value) holds) :
    Succeeds (EventBase.liftExcept result >>= next) holds := by
  refine Emits.bind (liftExcept_emits result ?_)
  cases result with
  | ok value => exact rest value
  | error error => exact fun _ failed => by cases failed

theorem Succeeds.cond {condition} [Decidable condition] {first second : TaskM α}
    (yes : condition → Succeeds first holds) (no : ¬ condition → Succeeds second holds) :
    Succeeds (if condition then first else second) holds := Emits.cond yes no

theorem Succeeds.of_emitsOnly {allowed : Effect → Prop} {task : TaskM α} (emits : EmitsOnly allowed task) :
    Succeeds task fun added => ∀ effect ∈ added, allowed effect := Emits.weaken emits fun _ _ each _ _ => each

theorem Succeeds.outcome {task : TaskM α} (succeeds : Succeeds task holds) (done : task.outcome.2.isOk = true) :
    holds task.outcome.1 := by
  have given := Emits.outcome succeeds
  cases result : task.outcome.2 with
  | ok value => exact given value result
  | error error => simp [result, Except.isOk, Except.toBool] at done

end

section
variable {α β : Type} {message : EMessage} {task : TaskM α} {next : α → TaskM β}

theorem Succeeds.answered (first : Succeeds task (Answered message)) (rest : ∀ value, Succeeds (next value) (Answered message)) :
    Succeeds (task >>= next) (Answered message) := first.bind rest fun _ _ => Answered.append

theorem Succeeds.concluded (first : Succeeds task (Concludes message)) (rest : ∀ value, Succeeds (next value) (Answered message)) :
    Succeeds (task >>= next) (Concludes message) :=
  first.bind rest fun _ _ before after => ⟨before.settles.append_left, before.answered.append after⟩

theorem Succeeds.concludes {holds : List Effect → Prop} (first : Succeeds task holds)
    (rest : ∀ value, Succeeds (next value) (Concludes message)) : Succeeds (task >>= next) (Concludes message) :=
  first.bind rest fun _ _ _ after => ⟨after.settles.append_right, after.answered.after after.settles⟩

end

/-- The routing producer knows the topic, or does not drop what it does not know. -/
def Accepts (env : Env) (topic : String) : Prop := (∀ routes ∈ env.routes, topic ∈ routes) ∨ isSystemTopic topic = false

theorem acknowledged_verdict {worker : Worker} {run : PipelineRun} (acknowledged : worker.acknowledges run = true) :
    verdict (worker.status run) run.message = [.complete] := by
  simp only [Worker.acknowledges] at acknowledged
  split at acknowledged
  · next answer mode =>
    simp only [answer, verdict, mode]
    exact if_pos (by simpa using acknowledged)
  · next answer mode => simp only [answer, verdict, mode]
  · next answer mode => simp only [answer, verdict, mode]
  · cases acknowledged
  · cases acknowledged

section
variable {env : Env} {message : EMessage}

theorem produce_succeeds (mode : SendMode) (effect : Effect) :
    Succeeds (produce env mode effect) fun added => added = [effect] :=
  produce_emits env (fun _ _ _ _ => rfl) fun _ _ _ _ failed => by cases failed

theorem routed_succeeds (accepts : Accepts env topic) (mode : SendMode) (effect : Effect) :
    Succeeds (routed env topic mode effect) fun added => added = [effect] := by
  unfold routed
  split
  · exact produce_succeeds mode effect
  · next routes known =>
    refine .cond (fun _ => produce_succeeds mode effect) fun unknown => .cond (fun system => ?_) fun _ => ?_
    · obtain listed | business := accepts
      · exact absurd (listed routes known) unknown
      · simp [business] at system
    · exact Emits.throw _ fun _ failed => by cases failed

theorem send_concludes {other} (same : other.id = message.id ∧ other.topic = message.topic)
    (single : other.deliveryMode ≠ .broadcast) (business : isSystemTopic other.topic = false) (trySend : Option Bool)
    (timeout : Option Duration) :
    Succeeds (TopicRouter.send env other.topic other trySend timeout) (Concludes message) := by
  unfold TopicRouter.send
  refine .cond (fun _ => .cond (fun _ => ?_) fun _ => ?_) fun _ => .cond (fun mode => absurd mode single) fun _ => ?_
  · refine schedule_emits env (fun _ _ _ _ => ?_) fun _ _ _ _ failed => by cases failed
    exact ⟨⟨_, mem_singleton_self _, same.1⟩, .of_marks not_mem_nil⟩
  · exact Emits.throw _ fun _ failed => by cases failed
  · refine (routed_succeeds (.inr business) _ _).weaken ?_
    rintro _ rfl
    exact ⟨⟨_, mem_singleton_self _, same⟩, .of_marks not_mem_nil⟩

theorem silent_answered {α : Type} {task : TaskM α} (silent : EmitsOnly (fun effect => mark? effect = none) task) :
    Succeeds task (Answered message) := by
  refine (Succeeds.of_emitsOnly silent).weaken fun added each => .of_marks ?_
  have none : marks added = [] := filterMap_eq_nil_iff.mpr each
  simp [none]

theorem send_answered (topic : String) (other : EMessage) :
    Succeeds (TopicRouter.send env topic other none none) (Answered message) :=
  silent_answered (.send env (fun _ => rfl) (fun _ _ _ _ => rfl) fun _ _ => rfl)

variable {worker : Worker}

theorem auditMsg_answered {msg result eventType duration} :
    Succeeds (worker.auditMsg env msg result eventType error duration) (Answered message) :=
  silent_answered (.auditMsg env worker fun _ => rfl)

theorem ownSend_concludes {msg} (same : msg.id = message.id ∧ msg.topic = message.topic) :
    Succeeds (Worker.ownSend env msg) (Concludes message) := by
  refine (produce_succeeds .send (.requeue msg)).weaken ?_
  rintro _ rfl
  exact ⟨⟨_, mem_singleton_self _, same⟩, .of_marks not_mem_nil⟩

variable (reports : ∀ routes ∈ env.routes, systemTopicWalSync ∈ routes)
include reports

theorem syncStatus_succeeds {attempts} (id : String) :
    Succeeds (worker.syncStatus env id topic status attempts error) fun added => marks added = [(id, status)] := by
  refine .now fun _ => .now fun _ => (routed_succeeds (.inl reports) _ _).weaken ?_
  rintro _ rfl
  rfl

section
variable {msg : EMessage} (same : msg.id = message.id)
include same

theorem syncStatus_concludes {attempts} (known : status ≠ .pending) :
    Succeeds (worker.syncStatus env msg.id topic status attempts error) (Concludes message) := by
  refine (syncStatus_succeeds reports msg.id).weaken fun added marked => ⟨?_, .of_marks ?_⟩
  · exact settles_of_mark (by rw [marked, same]; exact mem_singleton_self _) known
  · rw [marked]
    simpa using fun _ => known.symm

theorem sendToDeadLetter_concludes (reason : DeadReason) (processTime : Duration) :
    Succeeds (worker.sendToDeadLetter env msg reason processTime) (Concludes message) := by
  refine (syncStatus_concludes reports same WalRecordState.noConfusion).concluded fun _ => ?_
  refine (send_answered _ _).answered fun _ => ?_
  exact .cond (fun _ => auditMsg_answered) fun _ => .pure () trivial

end

section
variable {msg : EMessage} (same : msg.id = message.id ∧ msg.topic = message.topic) (single : msg.deliveryMode ≠ .broadcast)
include same single

theorem onAck_concludes (processTime : Duration) : Succeeds (worker.onAck env msg processTime) (Concludes message) := by
  have completed : Succeeds (worker.markComplete env msg.id msg.topic msg.attempts) (Concludes message) :=
    syncStatus_concludes reports same.1 WalRecordState.noConfusion
  cases mode : msg.deliveryMode with
  | repeated times =>
    simp only [Worker.onAck, mode]
    refine .cond (fun _ => completed) fun _ => ?_
    refine (syncStatus_succeeds reports msg.id).concludes fun _ => (syncStatus_succeeds reports msg.id).concludes fun _ => ?_
    exact ownSend_concludes same
  | standard =>
    simp only [Worker.onAck, mode]
    refine .cond (fun _ => ?_) fun _ => completed
    exact Succeeds.concludes (auditMsg_answered : Succeeds _ (Answered message)) fun _ => completed
  | broadcast => exact absurd mode single

variable (business : isSystemTopic msg.topic = false)
include business

theorem onNoAck_concludes (retryAfter : Option Duration) (maxRetries : UInt32) (processTime : Duration) :
    Succeeds (worker.onNoAck env msg retryAfter maxRetries processTime) (Concludes message) := by
  refine (syncStatus_succeeds reports msg.id).concludes fun _ => .cond (fun _ => ?_) fun _ => ?_
  · refine sendToDeadLetter_concludes reports ?_ _ _
    exact same.1
  · cases retryAfter with
    | some delay =>
      refine .now fun time => send_concludes ?_ ?_ ?_ none none
      · exact same
      · exact single
      · exact business
    | none => exact ownSend_concludes same

theorem settle_concludes (answer : Ack) (processTime : Duration) :
    Succeeds (worker.settle env answer msg processTime) (Concludes message) := by
  cases answer with
  | ack => exact onAck_concludes reports same single processTime
  | noAck retryAfter maxRetries => exact onNoAck_concludes reports same single business retryAfter maxRetries processTime
  | dead reason =>
    refine (syncStatus_succeeds reports msg.id).concludes fun _ => ?_
    exact sendToDeadLetter_concludes reports same.1 reason processTime

end

section
variable {run : PipelineRun} (same : run.message.id = message.id ∧ run.message.topic = message.topic)
  (single : run.message.deliveryMode ≠ .broadcast) (topical : worker.topic = run.message.topic)
  (business : isSystemTopic worker.topic = false)
include same single topical business

theorem processMsg_concludes (msg : EMessage) : Succeeds (worker.processMsg env run msg) (Concludes message) := by
  have settled : ∀ startTime, Succeeds (do
      let finishTime ← EventBase.now env
      let processTime ← liftExcept (durationSince finishTime startTime)
      worker.settle env (worker.status run) run.message processTime) (Concludes message) := by
    intro startTime
    refine .now fun _ => .liftExcept fun processTime => ?_
    exact settle_concludes reports same single (topical ▸ business) (worker.status run) processTime
  have started : Succeeds (do
      let startTime ← EventBase.now env
      worker.markProcessing env msg.id msg.topic
      let finishTime ← EventBase.now env
      let processTime ← liftExcept (durationSince finishTime startTime)
      worker.settle env (worker.status run) run.message processTime) (Concludes message) := by
    refine .now fun startTime => (syncStatus_succeeds reports msg.id).concludes fun _ => ?_
    exact settled startTime
  simp only [Worker.processMsg, business, Bool.not_false, Bool.false_eq_true, if_false, if_true]
  refine .cond (fun _ => ?_) fun _ => started
  exact Succeeds.concludes (auditMsg_answered : Succeeds _ (Answered message)) fun _ => started

theorem concludes_outcome {msg : EMessage} (own : msg.id = message.id)
    (concluded : worker.concludes run (worker.processMsg env run msg).outcome = true) :
    Concludes message (worker.processMsg env run msg).outcome.1 := by
  simp only [Worker.concludes, business, Bool.false_eq_true, if_false, Bool.or_eq_true, Bool.and_eq_true] at concluded
  obtain done | ⟨processing, acknowledged⟩ := concluded
  · exact (processMsg_concludes reports same single topical business msg).outcome done
  · have among : (marks (worker.processMsg env run msg).outcome.1).Sublist (plan worker run msg) :=
      (processMsg_reports env worker run msg).outcome
    have completes : verdict (worker.status run) run.message = [.complete] := acknowledged_verdict acknowledged
    have planned : plan worker run msg = [(msg.id, .processing), (run.message.id, .complete)] := by
      simp [plan, business, completes]
    rw [planned] at among
    obtain ⟨effect, member, reported⟩ := any_eq_true.mp processing
    have marked : (message.id, .processing) ∈ marks (worker.processMsg env run msg).outcome.1 := by
      cases effect with
      | walSync sync =>
        have status : sync.status = .processing := by simpa [Effect.reportsProcessing] using reported
        have found : (sync.messageId, sync.status) ∈ marks (worker.processMsg env run msg).outcome.1 :=
          mem_filterMap.mpr ⟨_, member, rfl⟩
        have listed := among.subset found
        rw [status] at listed found
        have named : sync.messageId = msg.id := by simpa using listed
        rwa [named, own] at found
      | audit | publish | requeue | schedule => cases reported
    refine ⟨settles_of_mark marked WalRecordState.noConfusion, .of_marks fun pending => ?_⟩
    simpa using among.subset pending

end

end

end EventBase.Proofs.SettledCalls
