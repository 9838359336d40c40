import EventBase.TopicRouter

/-! One worker's handling of one message, as the trace of its effects. -/

namespace EventBase

structure Worker where
  topic : String
  name : String
  timeOut : Option Duration := none
  deriving DecidableEq, Repr

/-- One run of the pipeline: the answer it gives, the message as its middleware
leaves it, and whether it is still running when the per-message timeout fires. -/
structure PipelineRun where
  answer : Ack
  message : EMessage
  late : Bool := false
  deriving DecidableEq, Repr

namespace Worker

def isMisrouted (worker : Worker) (msg : EMessage) : Bool :=
  match msg.toWorker with
  | some target => decide (target ≠ worker.name)
  | none => false

/-- The answer `process_msg` acts on: a dropped pipeline counts as a timeout. -/
def status (worker : Worker) (run : PipelineRun) : Ack :=
  if worker.timeOut.isSome && run.late then .dead .timeout else run.answer

section
variable (env : Env) (worker : Worker)

def syncStatus (messageId topic : String) (status : WalRecordState) (attempts : UInt32)
    (error : Option String) : TaskM Unit := do
  let lastAttemptAt ← now env
  let timestamp ← now env
  routed env systemTopicWalSync (sendMode env none none) (.walSync
    { messageId, topic, workerId := worker.name, status, attempts, lastAttemptAt, error, timestamp })

def markPending (messageId topic : String) : TaskM Unit :=
  syncStatus env worker messageId topic .pending 0 none

def markProcessing (messageId topic : String) : TaskM Unit :=
  syncStatus env worker messageId topic .processing 0 none

def markComplete (messageId topic : String) (attempts : UInt32) : TaskM Unit :=
  syncStatus env worker messageId topic .complete attempts none

def markDeadLetter (messageId topic : String) (attempts : UInt32) (error : String) : TaskM Unit :=
  syncStatus env worker messageId topic .failed attempts (some error)

/-- An audit record that cannot be sent is logged and otherwise ignored. -/
def auditMsg (msg : EMessage) (result : AuditResult) (eventType : AuditEventType)
    (error : Option String) (duration : Option Duration) : TaskM Unit := do
  let timestamp ← now env
  tryCatch
    (routed env systemTopicAudit (sendMode env none none) (.audit
      { messageId := msg.id, topic := msg.topic, eventType, workerId := some worker.name,
        timestamp, result, error, duration }))
    (fun _ => pure ())

/-- The worker's own producer writes to its topic's queue without routing. -/
def ownSend (msg : EMessage) : TaskM Unit := produce env .send (.requeue msg)

def requeueMessage (msg : EMessage) : TaskM Unit := do
  markPending env worker msg.id msg.topic
  ownSend env msg

def deadLetterTopic (topic : String) : String := "dead_letter." ++ topic

def sendToDeadLetter (msg : EMessage) (reason : DeadReason) (processTime : Duration) : TaskM Unit := do
  let msg := { msg with topic := deadLetterTopic worker.topic, toWorker := none }
  markDeadLetter env worker msg.id msg.topic msg.attempts reason.toText
  TopicRouter.send env (deadLetterTopic worker.topic) msg none none
  if worker.topic ≠ systemTopicAudit then
    auditMsg env worker msg .dead .deadLettered (some reason.toText) (some processTime)

def onAck (msg : EMessage) (processTime : Duration) : TaskM Unit :=
  match msg.deliveryMode with
  | .repeated times => do
    let msg := { msg with consumedCount := msg.consumedCount + 1 }
    if times = msg.consumedCount then markComplete env worker msg.id msg.topic msg.attempts
    else
      markPending env worker msg.id msg.topic
      requeueMessage env worker msg
  | _ => do
    if worker.topic ≠ systemTopicAudit then
      auditMsg env worker msg .success .processingCompleted none (some processTime)
    markComplete env worker msg.id msg.topic msg.attempts

def onNoAck (msg : EMessage) (retryAfter : Option Duration) (maxRetries : UInt32)
    (processTime : Duration) : TaskM Unit := do
  let msg := { msg with attempts := msg.attempts + 1 }
  markPending env worker msg.id msg.topic
  if maxRetries ≤ msg.attempts then sendToDeadLetter env worker msg .maxRetriesExceeded processTime
  else match retryAfter with
    | some delay =>
      let time ← now env
      let msg := { msg with deliverAt := time.checkedAdd delay }
      TopicRouter.send env msg.topic msg none none
    | none => ownSend env msg

def onDead (msg : EMessage) (reason : DeadReason) (processTime : Duration) : TaskM Unit := do
  markDeadLetter env worker msg.id msg.topic msg.attempts reason.toText
  sendToDeadLetter env worker msg reason processTime

def settle (answer : Ack) (msg : EMessage) (processTime : Duration) : TaskM Unit :=
  match answer with
  | .ack => onAck env worker msg processTime
  | .noAck retryAfter maxRetries => onNoAck env worker msg retryAfter maxRetries processTime
  | .dead reason => onDead env worker msg reason processTime

/-- `Worker::process_msg`. A system worker only runs its pipeline. -/
def processMsg (run : PipelineRun) (msg : EMessage) : TaskM Unit := do
  let isSystem := isSystemTopic worker.topic
  if !isSystem && worker.topic ≠ systemTopicAudit then
    auditMsg env worker msg .start .processingStarted none none
  let startTime ← now env
  if !isSystem then markProcessing env worker msg.id msg.topic
  if isSystem then return ()
  let finishTime ← now env
  let processTime ← liftExcept (durationSince finishTime startTime)
  settle env worker (worker.status run) run.message processTime

/-- The loop of `Worker::start` logs a failure of `process_msg` and goes on. -/
def consume (run : PipelineRun) (msg : EMessage) : TaskM Unit :=
  tryCatch (processMsg env worker run msg) fun _ => pure ()

/-- `Worker::route_targeted`: what the worker puts back on its topic's queue,
or nothing once the message has used up its hops. -/
def routeTargeted (msg : EMessage) : Option EMessage :=
  if maxTargetedHops ≤ msg.attempts then none else some { msg with attempts := msg.attempts + 1 }

end

end Worker

end EventBase
