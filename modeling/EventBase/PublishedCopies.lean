import EventBase.RecvLoop
import EventBase.Redelivery

/-! Where the copies of a published message can get, on nodes that use the crossfire or
the Redis backend. Queues, inboxes and the delay store only grow: whoever reads one of
them may be given anything that was ever put there, any number of times and in any
order, so what is acknowledged, returned, reclaimed, delivered twice or lost needs no
steps of its own. A mark on a copy says whether it stems from `Publish`. -/

namespace EventBase

structure PublishRequest where
  topic : String
  payload : List UInt8
  broadcast : Bool
  toWorker : String
  deriving DecidableEq

/-- The text of an internal error is `[PUBLISH]: ` followed by the error's. -/
inductive PublishStatus where
  | invalidArgument (text : String)
  | internal (error : CoreError)
  deriving DecidableEq

def startsWithUnderscore (topic : String) : Bool := "_".toList.isPrefixOf topic.toList

def PublishRequest.message (request : PublishRequest) (id : String) (createdAt : SystemTime) : EMessage :=
  let mode := if request.broadcast then .broadcast else .standard
  let toWorker := if request.toWorker.isEmpty then none else some request.toWorker
  EMessage.new id createdAt request.topic request.payload mode toWorker

/-- `EventBaseService::publish`, with the id and the creation time of the message. -/
def EventBaseService.publish (env : Env) (request : PublishRequest) (id : String) (createdAt : SystemTime) :
    List Effect × Except PublishStatus String :=
  if request.topic.isEmpty then ([], .error (.invalidArgument "topic must not be empty"))
  else if startsWithUnderscore request.topic then
    ([], .error (.invalidArgument "Publish cannot target system topics (leading '_'); use the dedicated RPCs"))
  else
    let msg := request.message id createdAt
    match (TopicRouter.send env request.topic msg none none).outcome with
    | (effects, .ok _) => (effects, .ok msg.id)
    | (effects, .error error) => (effects, .error (.internal error))

inductive Transport where
  | crossfire
  | redis
  deriving DecidableEq

structure MarkedCopy where
  message : EMessage
  published : Bool
  deriving DecidableEq

structure QueueKey where
  home : Nat
  topic : String
  deriving DecidableEq

structure Handed where
  node : Nat
  worker : Worker
  copy : MarkedCopy
  deriving DecidableEq

/-- What a dispatcher has read: the workers published for its topic and, later, those
of them that have an inbox. -/
structure DispatchCache where
  names : List Worker := []
  cached : List Worker := []

/-- `routes` has the topics that crossfire made a channel for, `caches` the dispatchers
of each topic by number. -/
structure TrafficNode where
  router : ConsumerRouter := {}
  routes : List String := []
  caches : String → Nat → DispatchCache := fun _ _ => {}

/-- `started` has the copies on which a worker ran its pipeline. -/
structure CopyTraffic where
  nodes : Nat → TrafficNode := fun _ => {}
  queues : List (QueueKey × MarkedCopy) := []
  handed : List Handed := []
  delays : List (WalRecord × Bool) := []
  started : List Handed := []

/-- The surroundings of each step come with the event: the answers of the calls and the
registry in `env`, the idle pool of the recv loop, the cursor of a dispatcher and the
name of its node. `foreign` is all other traffic, `receive` a worker that reads the
queue of its topic itself, `fetch` the delay scheduler. -/
inductive TrafficEvent where
  | call (node : Nat) (request : RouterCall)
  | publish (node : Nat) (env : Env) (request : PublishRequest) (id : String) (createdAt : SystemTime)
  | foreign (key : QueueKey) (msg : EMessage)
  | readNames (node : Nat) (topic : String) (dispatcher : Nat)
  | readInboxes (node : Nat) (topic : String) (dispatcher : Nat)
  | dispatch (node : Nat) (topic : String) (dispatcher : Nat) (name : Option String) (cursor index : Nat)
  | receive (node : Nat) (worker : Worker) (index : Nat)
  | recv (node : Nat) (env : RecvEnv) (idleWorkers : Table (List String)) (ephemeral : String) (index : Nat)
  | process (index : Nat) (env : Env) (run : PipelineRun)
  | fetch (node : Nat) (env : Env) (index : Nat)

namespace Transport

/-- The channels of crossfire belong to one process, the streams of Redis to all. -/
def key (transport : Transport) (node : Nat) (topic : String) : QueueKey :=
  match transport with
  | .crossfire => ⟨node, topic⟩
  | .redis => ⟨0, topic⟩

/-- What the main consumer reads. No producer writes to the default channel of
crossfire; on Redis the stream is that of a topic. -/
def mainQueue (transport : Transport) (node : Nat) : Option QueueKey :=
  match transport with
  | .crossfire => none
  | .redis => some (transport.key node "_default")

def surroundings (transport : Transport) (node : TrafficNode) (env : Env) : Env :=
  match transport with
  | .crossfire => { env with routes := some node.routes }
  | .redis => { env with routes := none }

end Transport

namespace CopyTraffic

def setNode (state : CopyTraffic) (node : Nat) (value : TrafficNode) : CopyTraffic :=
  { state with nodes := fun other => if other = node then value else state.nodes other }

def put (state : CopyTraffic) (key : QueueKey) (copy : MarkedCopy) : CopyTraffic :=
  { state with queues := state.queues ++ [(key, copy)] }

def hand (state : CopyTraffic) (handed : Handed) : CopyTraffic := { state with handed := state.handed ++ [handed] }

def setCache (state : CopyTraffic) (node : Nat) (topic : String) (dispatcher : Nat) (cache : DispatchCache) : CopyTraffic :=
  let current := state.nodes node
  state.setNode node { current with
    caches := fun other number => if other = topic ∧ number = dispatcher then cache else current.caches other number }

section
variable (transport : Transport)

/-- Where an effect of a task on a node puts a copy; `own` is the topic of the worker
that runs it. Reports are messages of their own. -/
def perform (state : CopyTraffic) (node : Nat) (own : String) (published : Bool) : Effect → CopyTraffic
  | .publish msg => state.put (transport.key node msg.topic) ⟨msg, published⟩
  | .requeue msg => state.put (transport.key node own) ⟨msg, published⟩
  | .schedule record => { state with delays := state.delays ++ [(record, published)] }
  | .audit _ | .walSync _ => state

def performAll (state : CopyTraffic) (node : Nat) (own : String) (published : Bool) (effects : List Effect) : CopyTraffic :=
  effects.foldl (fun state effect => state.perform transport node own published effect) state

/-- The crossfire factory makes a channel when a topic is registered. -/
def call (state : CopyTraffic) (node : Nat) (request : RouterCall) : Option CopyTraffic :=
  let current := state.nodes node
  (current.router.call request).map fun router =>
    let routes := match request with
      | .register topic (.ok _) => topic :: current.routes
      | _ => current.routes
    state.setNode node { current with router, routes }

def readNames (state : CopyTraffic) (node : Nat) (topic : String) (dispatcher : Nat) : CopyTraffic :=
  let current := state.nodes node
  let names := (current.router.published topic).filterMap fun name => current.router.workerIndex.lookup name
  state.setCache node topic dispatcher { current.caches topic dispatcher with names }

def readInboxes (state : CopyTraffic) (node : Nat) (topic : String) (dispatcher : Nat) : CopyTraffic :=
  let current := state.nodes node
  let names := (current.caches topic dispatcher).names
  let cached := names.filter fun worker => worker.name ∈ current.router.localInboxes
  state.setCache node topic dispatcher { names, cached }

def dispatch (state : CopyTraffic) (node : Nat) (key : QueueKey) (copy : MarkedCopy) (name : Option String)
    (cached : List Worker) (cursor : Nat) : CopyTraffic :=
  match (Dispatcher.plan name (cacheOfWorkers cached) cursor copy.message).1 with
  | .requeue | .expire => state
  | .deliver target message =>
    match cached[target.channel]? with
    | some worker => state.hand ⟨node, worker, { copy with message }⟩
    | none => state
  | .relay message => state.put key { copy with message }

/-- A worker's producer writes to the queue of its topic, and so does a topic's. -/
def passOn (state : CopyTraffic) (node : Nat) (ephemeral : String) (published : Bool) : RecvEmission → CopyTraffic
  | .forwarded worker message => state.put (transport.key node worker.topic) ⟨message, published⟩
  | .relayed topic message => state.put (transport.key node topic) ⟨message, published⟩
  | .spawned topic message => state.hand ⟨node, { topic, name := ephemeral }, ⟨message, published⟩⟩

def recv (state : CopyTraffic) (node : Nat) (copy : MarkedCopy) (env : RecvEnv) (idleWorkers : Table (List String))
    (ephemeral : String) : CopyTraffic :=
  let pass : RecvPass := { node := { router := (state.nodes node).router, idleWorkers } }
  (pass.handle env ⟨copy.message, "", 0⟩).emitted.foldl
    (fun state entry => state.passOn transport node ephemeral copy.published entry.2) state

def process (state : CopyTraffic) (handed : Handed) (env : Env) (run : PipelineRun) : CopyTraffic :=
  let ⟨node, worker, copy⟩ := handed
  if worker.isMisrouted copy.message then
    match Worker.routeTargeted copy.message with
    | none => state
    | some message => state.put (transport.key node worker.topic) { copy with message }
  else
    let env := transport.surroundings (state.nodes node) env
    let effects := (worker.processMsg env run copy.message).outcome.1
    { state.performAll transport node worker.topic copy.published effects with started := state.started ++ [handed] }

def step (state : CopyTraffic) : TrafficEvent → Option CopyTraffic
  | .call node request => state.call node request
  | .publish node env request id createdAt =>
    let env := transport.surroundings (state.nodes node) env
    some (state.performAll transport node request.topic true (EventBaseService.publish env request id createdAt).1)
  | .foreign key msg => some (state.put key ⟨msg, false⟩)
  | .readNames node topic dispatcher => some (state.readNames node topic dispatcher)
  | .readInboxes node topic dispatcher => some (state.readInboxes node topic dispatcher)
  | .dispatch node topic dispatcher name cursor index =>
    match state.queues[index]? with
    | some (key, copy) =>
      if key = transport.key node topic then
        some (state.dispatch node key copy name ((state.nodes node).caches topic dispatcher).cached cursor)
      else none
    | none => none
  | .receive node worker index =>
    match state.queues[index]? with
    | some (key, copy) => if key = transport.key node worker.topic then some (state.hand ⟨node, worker, copy⟩) else none
    | none => none
  | .recv node env idleWorkers ephemeral index =>
    match state.queues[index]? with
    | some (key, copy) =>
      if transport.mainQueue node = some key then some (state.recv transport node copy env idleWorkers ephemeral) else none
    | none => none
  | .process index env run => (state.handed[index]?).map fun handed => state.process transport handed env run
  | .fetch node env index =>
    match state.delays[index]? with
    | some (record, published) =>
      let env := transport.surroundings (state.nodes node) env
      some (state.performAll transport node record.message.topic published (deliverDelayed env record).outcome.1)
    | none => none

end

end CopyTraffic

end EventBase
