import EventBase.Wal

/-! What one asynchronous call does to the rest of the node: the sequence of
effects other parties can observe, with every fallible call answered by an
oracle. `TopicRouter::send` and the delay scheduler are written over it. -/

namespace EventBase

inductive AuditEventType where
  | enqueued
  | processingStarted
  | processingCompleted
  | retry
  | deadLettered
  deriving DecidableEq, Repr

inductive AuditResult where
  | start
  | success
  | failure
  | retry
  | dead
  deriving DecidableEq, Repr

structure AuditRecord where
  messageId : String
  topic : String
  eventType : AuditEventType
  workerId : Option String
  timestamp : SystemTime
  result : AuditResult
  error : Option String
  duration : Option Duration
  deriving DecidableEq, Repr

/-- Calls that took effect. `publish` goes through the router's global producer
to the queue of the message's own topic, `requeue` through a worker's producer
to the queue of the worker's topic. -/
inductive Effect where
  | audit (record : AuditRecord)
  | walSync (sync : WalSyncMessage)
  | publish (message : EMessage)
  | requeue (message : EMessage)
  | schedule (record : WalRecord)
  deriving DecidableEq, Repr

inductive SendMode where
  | trySend
  | sendTimeout (timeout : Duration)
  | send
  deriving DecidableEq, Repr

/-- Everything a call reads from its surroundings. The n-th producer call of a
task is answered by `sends n`, the n-th delay-store write by `schedules n`, the
n-th clock reading by `clock n`. `routes` is the routing table of the crossfire
producer; other backends have none. -/
structure Env where
  nodeType : NodeType
  registry : Table WorkerInfo
  walAvailable : Bool := true
  defaultSendTimeout : Option Duration := none
  routes : Option (List String) := none
  sends : Nat → SendMode → Option CoreError := fun _ _ => none
  schedules : Nat → Option CoreError := fun _ => none
  clock : Nat → SystemTime := fun _ => 0

/-- The effects so far, oldest first, and how often each oracle was asked. -/
structure Session where
  effects : List Effect := []
  sends : Nat := 0
  schedules : Nat := 0
  ticks : Nat := 0

abbrev TaskM := EStateM CoreError Session

def Session.start : Session := {}

/-- The `?` operator on a value that is already a result. -/
def liftExcept {α : Type} : Except CoreError α → TaskM α
  | .ok value => pure value
  | .error error => throw error

section
variable (env : Env)

def now : TaskM SystemTime := do
  let session ← get
  set { session with ticks := session.ticks + 1 }
  return env.clock session.ticks

/-- One producer call that leaves `effect` behind when it is accepted. -/
def produce (mode : SendMode) (effect : Effect) : TaskM Unit := do
  let session ← get
  match env.sends session.sends mode with
  | some error =>
    set { session with sends := session.sends + 1 }
    throw error
  | none =>
    set { session with
      sends := session.sends + 1
      effects := session.effects ++ [effect] }

/-- The crossfire routing producer drops unroutable system traffic and refuses
any other topic nobody registered. -/
def routed (topic : String) (mode : SendMode) (effect : Effect) : TaskM Unit :=
  match env.routes with
  | none => produce env mode effect
  | some routes =>
    if topic ∈ routes then produce env mode effect
    else if isSystemTopic topic then pure ()
    else throw (.queue (.send ("topic '" ++ topic ++ "' is not registered")))

def sendMode (trySend : Option Bool) (timeout : Option Duration) : SendMode :=
  if trySend.getD false then .trySend
  else match timeout.or env.defaultSendTimeout with
    | some timeout => .sendTimeout timeout
    | none => .send

def emit (msg : EMessage) (trySend : Option Bool) (timeout : Option Duration) : TaskM Unit :=
  routed env msg.topic (sendMode env trySend timeout) (.publish msg)

def schedule (record : WalRecord) : TaskM Unit := do
  let session ← get
  match env.schedules session.schedules with
  | some error =>
    set { session with schedules := session.schedules + 1 }
    throw error
  | none =>
    set { session with
      schedules := session.schedules + 1
      effects := session.effects ++ [Effect.schedule record] }

def getWorkers (registry : Table WorkerInfo) (topic : String) : List WorkerInfo :=
  (Table.values registry).filter (fun info => info.topic = topic)

def broadcastCopy (msg : EMessage) (info : WorkerInfo) : EMessage :=
  { msg with id := msg.id ++ "-" ++ info.workerName, toWorker := some info.workerName }

/-- The fan-out loop stops at the first copy the producer refuses. -/
def emitCopies (msg : EMessage) (trySend : Option Bool) (timeout : Option Duration) :
    List WorkerInfo → TaskM Unit
  | [] => pure ()
  | info :: rest => do
    emit env (broadcastCopy msg info) trySend timeout
    emitCopies msg trySend timeout rest

/-- `TopicRouter::send`. -/
def TopicRouter.send (topic : String) (msg : EMessage) (trySend : Option Bool)
    (timeout : Option Duration) : TaskM Unit := do
  if msg.deliverAt.isSome then
    if env.walAvailable then schedule env (WalRecord.fromMsg msg)
    else throw (.unsupported "WAL not available")
  else if msg.deliveryMode = .broadcast then
    if env.nodeType = .worker then
      throw (.unsupported "Unsupported node type, send broadcast message must host")
    else emitCopies env msg trySend timeout (getWorkers env.registry topic)
  else emit env { msg with topic := topic } trySend timeout

/-- What the delay scheduler does with one record it fetched. A failed send is
logged and the record is gone. -/
def deliverDelayed (record : WalRecord) : TaskM Unit :=
  tryCatch (TopicRouter.send env record.message.topic { record.message with deliverAt := none } none none)
    (fun _ => pure ())

end

/-- The effects and the result of running a task from the start. -/
def TaskM.outcome {α : Type} (task : TaskM α) : List Effect × Except CoreError α :=
  match task.run Session.start with
  | .ok value session => (session.effects, .ok value)
  | .error error session => (session.effects, .error error)

end EventBase
