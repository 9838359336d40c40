import EventBase.RecvLoop
import EventBase.TopicPlane

/-! What the handling of a message of a system topic tells the observers of the node.
`TraceLayer::on_event` sends every tracing event the filter lets through to
`_system.trace`; nothing on the way opens a span, so `on_close` has nothing to add. -/

namespace EventBase

def systemTopicTrace : String := "_system.trace"

def Effect.observer : Effect → Option String
  | .audit _ => some systemTopicAudit
  | .walSync _ => some systemTopicWalSync
  | .publish msg => if msg.topic ∈ [systemTopicTrace, systemTopicAudit, systemTopicWalSync] then some msg.topic else none
  | .requeue _ | .schedule _ => none

/-- The handlers of `SystemHandlerBuilder::register_all` that emit events. The others
print their errors; those of a user are silent, as are collectors and writers. -/
inductive SystemHandler where
  | audit
  | shutdown
  | shutdownAck
  | topicDiscovery
  | topicSync
  | silent
  deriving DecidableEq, Repr

def SystemHandler.ofTopic : String → SystemHandler
  | "_system.audit" => .audit
  | "_system.shutdown" => .shutdown
  | "_system.shutdown_ack" => .shutdownAck
  | "_system.topic_discovery" => .topicDiscovery
  | "_system.topic_sync" => .topicSync
  | _ => .silent

/-- What a call of a handler meets: whether the payload decodes and the worker is
unregistered; how many workers a two-stage shutdown removed by force, and how many
`Worker::shutdown` calls gave up on a worker that was `Working`. -/
structure HandlerCall where
  decodes : Bool := true
  unregisters : Bool := true
  forced : Nat := 0
  timedOut : Nat := 0

/-- The events of a call. Only the loops of the shutdown handler have logged anything
when a call is dropped before its end. -/
def SystemHandler.traces (nodeType : NodeType) (call : HandlerCall) (ended : Bool) : SystemHandler → Nat
  | .audit | .topicDiscovery => if ended && !call.decodes then 1 else 0
  | .shutdown => if call.decodes then call.forced + call.timedOut else 0
  | .shutdownAck => if ended && call.decodes then (if call.unregisters then 1 else 2) else 0
  | .topicSync => if ended && decide (nodeType = .worker) && !call.decodes then 1 else 0
  | .silent => 0

/-- The pipeline was not dropped by the worker's timeout. -/
def Worker.ended (worker : Worker) (run : PipelineRun) : Bool := !(worker.timeOut.isSome && run.late)

namespace Plane
variable (config : PlaneConfig) (plane : Plane)

/-- The warnings of the dispatch loop: an inbox that is full or closed, the hop cap, and
a relay that fails. -/
def dispatchTraces (copy : Copy) (send : Bool) : Nat :=
  match (Dispatcher.plan config.node plane.dispatcher.cached plane.dispatcher.cursor copy.message).1 with
  | .requeue => 0
  | .deliver target _ => if plane.cells[target.channel]?.any (Cell.accepts config) then 0 else 1
  | .expire => 1
  | .relay _ => if send then 0 else 1

/-- Those of the recv loop: the hop cap, and a message that cannot be sent. -/
def recvTraces (copy : Copy) (idle sent : Bool) : Nat :=
  match copy.message.toWorker with
  | some target =>
    if !plane.indexed config target && decide (maxTargetedHops ≤ copy.message.attempts) then 1 else if sent then 0 else 1
  | none => if idle && !sent then 1 else 0

def processObserved (worker : Worker) (msg : EMessage) (env : Env) (run : PipelineRun) (call : HandlerCall) : List String :=
  List.replicate ((SystemHandler.ofTopic worker.topic).traces env.nodeType call (worker.ended run)) systemTopicTrace ++
    (worker.processMsg env run msg).outcome.1.filterMap Effect.observer

/-- A worker warns at the hop cap and reports a `process_msg` that fails. -/
def workerObserved (cell : Cell) (copy : Copy) (env : Env) (run : PipelineRun) (call : HandlerCall) : List String :=
  if cell.worker.isMisrouted copy.message then
    if (Worker.routeTargeted copy.message).isNone then [systemTopicTrace] else []
  else
    processObserved cell.worker copy.message env run call ++
      match (cell.worker.processMsg env run copy.message).outcome.2 with
      | .ok _ => []
      | .error _ => [systemTopicTrace]

/-- The topics of the messages for observers that a step causes. -/
def observed (call : HandlerCall) : PlaneEvent → List String
  | .act _ send =>
    match plane.phase with
    | .ready copy => List.replicate (plane.dispatchTraces config copy send) systemTopicTrace
    | _ => []
  | .recv idle sent _ => plane.queue.head?.elim [] fun copy => List.replicate (plane.recvTraces config copy idle sent) systemTopicTrace
  | .finish channel env run =>
    match plane.cells[channel]? with
    | some cell => cell.hand.elim [] fun copy => workerObserved cell copy env run call
    | none => []
  | .finishEphemeral index name env run =>
    plane.ephemerals[index]?.elim [] fun copy => processObserved { topic := config.topic, name } copy.message env run call
  | .stop channel =>
    if plane.cells[channel]?.any fun cell => cell.hand.isSome then
      List.replicate ((SystemHandler.ofTopic config.topic).traces .host call false) systemTopicTrace
    else []
  | _ => []

/-- Each step comes with what the handler that runs in it meets. -/
def observedStep (event : PlaneEvent × HandlerCall) : Option Plane := plane.step config event.1

def observedAlong (plane : Plane) : List (PlaneEvent × HandlerCall) → List String
  | [] => []
  | (event, call) :: rest =>
    plane.observed config call event ++ ((plane.step config event).elim [] fun next => observedAlong next rest)

end Plane

namespace RecvPass
variable (env : RecvEnv) (pass : RecvPass)

def sendTraces : Nat := if (env.sends pass.locks).isSome then 1 else 0

/-- The warnings of `recv` where topics come and go as well. -/
def traces (msg : EMessage) : Nat :=
  let pass := pass.lock env
  if msg.topic ∉ pass.node.router.localTopics then 0
  else
    let (worker, pass) := pass.selectWorker env msg
    match worker with
    | some _ => pass.sendTraces env
    | none =>
      let later := pass.lock env
      let entry := later.node.router.localTopics.lookup msg.topic
      if msg.toWorker.isSome then
        if maxTargetedHops ≤ msg.attempts then 1 else entry.elim 0 fun _ => later.sendTraces env
      else entry.elim 1 fun _ => 0

end RecvPass

end EventBase
