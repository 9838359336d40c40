import EventBase.Proofs.TaskLogic
import EventBase.RecordLifecycle

/-! Which status reports a worker's call can emit, in which order. A report that is
refused ends the call, one that the routing producer drops is left out, so a call emits
a sublist of its plan. -/

namespace EventBase.Proofs.StatusReports
open TaskLogic List

abbrev Mark := String × WalRecordState

def mark? : Effect → Option Mark
  | .walSync sync => some (sync.messageId, sync.status)
  | _ => none

def marks (effects : List Effect) : List Mark := effects.filterMap mark?

@[simp] theorem marks_append (first second : List Effect) : marks (first ++ second) = marks first ++ marks second :=
  filterMap_append

def Reports {α : Type} (plan : List Mark) (task : TaskM α) : Prop :=
  Emits task fun added _ => (marks added).Sublist plan

section
variable {α β : Type} {plan more : List Mark}

theorem Reports.pure (value : α) : Reports plan (Pure.pure value : TaskM α) := Emits.pure value (nil_sublist plan)

theorem Reports.bind {task : TaskM α} {next : α → TaskM β} (first : Reports plan task) (rest : ∀ value, Reports more (next value)) :
    Reports (plan ++ more) (task >>= next) := by
  refine Emits.bind (Emits.weaken first fun added result among => ?_)
  cases result with
  | error error => exact among.trans (sublist_append_left plan more)
  | ok value =>
    refine Emits.weaken (rest value) fun later _ also => ?_
    rw [marks_append]
    exact among.append also

theorem Reports.cond {condition} [Decidable condition] {first second : TaskM α} (yes : condition → Reports plan first)
    (no : ¬ condition → Reports plan second) : Reports plan (if condition then first else second) := Emits.cond yes no

theorem Reports.silent {task : TaskM α} (silent : EmitsOnly (fun effect => mark? effect = none) task) :
    Reports plan task := by
  refine Emits.weaken silent fun added _ each => ?_
  have none : marks added = [] := filterMap_eq_nil_iff.mpr each
  rw [none]
  exact nil_sublist plan

end

section
variable (env : Env) (worker : Worker)

theorem Reports.now : Reports [] (EventBase.now env) := .silent (.now env)

theorem Reports.liftExcept {α : Type} (result : Except CoreError α) : Reports [] (EventBase.liftExcept result) :=
  .silent (.liftExcept result)

theorem Reports.syncStatus {messageId topic status attempts error} :
    Reports [(messageId, status)] (worker.syncStatus env messageId topic status attempts error) := by
  refine (Reports.now env).bind fun _ => (Reports.now env).bind fun _ => ?_
  exact routed_emits env (fun _ _ => .refl _) (nil_sublist _) fun _ => nil_sublist _

theorem Reports.auditMsg {msg result eventType error} {duration : Option Duration} :
    Reports [] (worker.auditMsg env msg result eventType error duration) :=
  .silent (.auditMsg env worker fun _ => rfl)

theorem Reports.send {topic msg} : Reports [] (TopicRouter.send env topic msg none none) :=
  .silent (.send env (fun _ => rfl) (fun _ _ _ _ => rfl) fun _ _ => rfl)

theorem Reports.ownSend {msg} : Reports [] (Worker.ownSend env msg) := .silent (.produce env _ rfl)

theorem deliverDelayed_reports (record : WalRecord) :
    Reports [] (deliverDelayed env record) := Emits.ignore (Reports.send env)

def verdict (answer : Ack) (msg : EMessage) : List WalRecordState :=
  match answer with
  | .ack =>
    match msg.deliveryMode with
    | .repeated times => if times = msg.consumedCount + 1 then [.complete] else [.pending, .pending]
    | _ => [.complete]
  | .noAck _ maxRetries => if maxRetries ≤ msg.attempts + 1 then [.pending, .failed] else [.pending]
  | .dead _ => [.failed, .failed]

theorem sendToDeadLetter_reports (msg : EMessage) (reason : DeadReason) (processTime : Duration) :
    Reports [(msg.id, .failed)] (worker.sendToDeadLetter env msg reason processTime) := by
  refine (Reports.syncStatus env worker).bind fun _ => (Reports.send env).bind fun _ => ?_
  exact .cond (fun _ => Reports.auditMsg env worker) fun _ => .pure ()

theorem onAck_reports (msg : EMessage) (processTime : Duration) :
    Reports ((verdict .ack msg).map fun status => (msg.id, status)) (worker.onAck env msg processTime) := by
  have completed : Reports [(msg.id, .complete)] (worker.markComplete env msg.id msg.topic msg.attempts) :=
    Reports.syncStatus env worker
  have pending : Reports [(msg.id, .pending)] (worker.markPending env msg.id msg.topic) := Reports.syncStatus env worker
  cases mode : msg.deliveryMode with
  | repeated times =>
    simp only [verdict, Worker.onAck, mode]
    split
    · exact completed
    · exact pending.bind fun _ => pending.bind fun _ => Reports.ownSend env
  | standard =>
    simp only [verdict, Worker.onAck, mode]
    exact .cond (fun _ => (Reports.auditMsg env worker).bind fun _ => completed) fun _ => completed
  | broadcast =>
    simp only [verdict, Worker.onAck, mode]
    exact .cond (fun _ => (Reports.auditMsg env worker).bind fun _ => completed) fun _ => completed

theorem onNoAck_reports (msg : EMessage) (retryAfter : Option Duration) (maxRetries : UInt32) (processTime : Duration) :
    Reports ((verdict (.noAck retryAfter maxRetries) msg).map fun status => (msg.id, status))
      (worker.onNoAck env msg retryAfter maxRetries processTime) := by
  simp only [verdict, Worker.onNoAck]
  have marked : Reports [(msg.id, .pending)] (worker.markPending env msg.id msg.topic) := Reports.syncStatus env worker
  split
  · exact marked.bind fun _ => sendToDeadLetter_reports env worker _ _ _
  · refine marked.bind fun _ => ?_
    cases retryAfter with
    | some delay => exact (Reports.now env).bind fun _ => Reports.send env
    | none => exact Reports.ownSend env

theorem settle_reports (answer : Ack) (msg : EMessage) (processTime : Duration) :
    Reports ((verdict answer msg).map fun status => (msg.id, status)) (worker.settle env answer msg processTime) := by
  cases answer with
  | ack => exact onAck_reports env worker msg processTime
  | noAck retryAfter maxRetries => exact onNoAck_reports env worker msg retryAfter maxRetries processTime
  | dead reason =>
    refine (Reports.syncStatus env worker).bind fun _ => ?_
    exact sendToDeadLetter_reports env worker msg reason processTime

/-- Everything a call can report: nothing on a system topic, elsewhere `Processing`
and then the verdict. -/
def plan (run : PipelineRun) (msg : EMessage) : List Mark :=
  if isSystemTopic worker.topic then []
  else (msg.id, .processing) :: (verdict (worker.status run) run.message).map fun status => (run.message.id, status)

theorem processMsg_reports (run : PipelineRun) (msg : EMessage) :
    Reports (plan worker run msg) (worker.processMsg env run msg) := by
  by_cases system : isSystemTopic worker.topic = true
  · simp only [plan, Worker.processMsg, system, Bool.not_true, Bool.false_eq_true, if_false, if_true]
    exact (Reports.now env).bind fun _ => .pure ()
  · have settled : ∀ startTime, Reports ((verdict (worker.status run) run.message).map fun status => (run.message.id, status)) (do
        let finishTime ← EventBase.now env
        let processTime ← liftExcept (durationSince finishTime startTime)
        worker.settle env (worker.status run) run.message processTime) := by
      intro startTime
      refine (Reports.now env).bind fun _ => ?_
      exact (Reports.liftExcept _).bind fun processTime => settle_reports env worker _ _ processTime
    simp only [plan, Worker.processMsg, system, Bool.not_false, Bool.false_eq_true, if_false, if_true]
    have marked : Reports [(msg.id, .processing)] (worker.markProcessing env msg.id msg.topic) := Reports.syncStatus env worker
    have started := (Reports.now env).bind fun startTime => marked.bind fun _ => settled startTime
    exact .cond (fun _ => (Reports.auditMsg env worker).bind fun _ => started) fun _ => started

end

def Keeps (first second : Mark) : Prop := first.1 = second.1 → first.2.isTerminal = true → second.2 = first.2

theorem verdict_final (answer : Ack) (msg : EMessage) :
    (verdict answer msg).Pairwise fun first second => first.isTerminal = true → second = first := by
  unfold verdict
  split
  · split
    · split <;> simp [WalRecordState.isTerminal]
    · simp
  · split <;> simp [WalRecordState.isTerminal]
  · simp

theorem plan_final (worker : Worker) (run : PipelineRun) (msg : EMessage) : (plan worker run msg).Pairwise Keeps := by
  unfold plan
  split
  · exact .nil
  · refine pairwise_cons.mpr ⟨fun _ _ _ wrong => (by cases wrong), ?_⟩
    refine pairwise_map.mpr ((verdict_final _ _).imp ?_)
    exact fun final _ => final

theorem plan_ids {worker run msg mark} (member : mark ∈ plan worker run msg) :
    isSystemTopic worker.topic = false ∧ (mark.1 = msg.id ∨ mark.1 = run.message.id) := by
  unfold plan at member
  split at member
  · cases member
  · next business =>
    refine ⟨by simpa using business, ?_⟩
    obtain rfl | member := mem_cons.mp member
    · exact .inl rfl
    · obtain ⟨status, _, rfl⟩ := mem_map.mp member
      exact .inr rfl

end EventBase.Proofs.StatusReports
