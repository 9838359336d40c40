import EventBase.TopicPlane

/-! Several nodes on one topic. Every node is a topic plane of its own; the queue
and the claims on it are shared, and so are the delay stores of nodes that use the
same one. Workers without an inbox read the queue themselves. -/

namespace EventBase

def uuidLength : Nat := 36

/-- The name `Worker::new` gives. -/
def workerName (node : Option String) (topic uuid : String) : String :=
  match node with
  | some node => node ++ "@" ++ ("worker-" ++ topic ++ "-" ++ uuid)
  | none => "worker-" ++ topic ++ "-" ++ uuid

/-- `node` names the nodes, `wal` says which delay store each of them uses. -/
structure ClusterConfig where
  topic : String
  node : Nat → Option String
  wal : Nat → Nat := id
  capacity : Option Nat := none
  inboxCapacity : Nat := 256
  sharedQueue : Bool := false

def ClusterConfig.plane (config : ClusterConfig) (index : Nat) : PlaneConfig where
  node := config.node index
  topic := config.topic
  capacity := config.capacity
  inboxCapacity := config.inboxCapacity
  sharedQueue := config.sharedQueue

/-- A worker that was started without an inbox. -/
structure DirectWorker where
  node : Nat
  worker : Worker
  hand : Option Copy := none
  stopped : Bool := false

/-- `made` records the node and the UUID of every worker, `broadcasts` the messages
that middleware turned into broadcasts. -/
structure Cluster where
  queue : List Copy := []
  claims : List Copy := []
  stores : Nat → List Copy := fun _ => []
  planes : Nat → Plane := fun _ => {}
  directs : List DirectWorker := []
  made : List (Nat × String) := []
  broadcasts : List EMessage := []

inductive ClusterEvent where
  | node (index : Nat) (event : PlaneEvent)
  | create (index : Nat) (uuid : String) (timeOut : Option Duration)
  | steal (index victim : Nat)
  | startDirect (index : Nat) (uuid : String) (timeOut : Option Duration)
  | receive (direct : Nat) (ack : Bool)
  | process (direct : Nat) (env : Env) (run : PipelineRun)
  | stopDirect (direct : Nat)

/-- The claim a dispatcher has not acknowledged yet. -/
def Phase.unsettled : Phase → Option Copy
  | .claimed copy | .loaded copy _ | .named copy _ _ | .ready copy | .nacking copy => some copy
  | .idle | .waiting _ | .sending _ => none

/-- The message in hand, if its middleware has just turned it into a broadcast. -/
def turned (copy : Option Copy) (run : PipelineRun) : List EMessage :=
  if run.message.deliveryMode = .broadcast then (copy.map Copy.origin).toList else []

def Plane.turned (plane : Plane) : PlaneEvent → List EMessage
  | .finish channel _ run => EventBase.turned (plane.cells[channel]?.bind Cell.hand) run
  | .finishEphemeral index _ _ run => EventBase.turned plane.ephemerals[index]? run
  | _ => []

namespace Cluster

def plug (config : ClusterConfig) (cluster : Cluster) (index : Nat) : Plane :=
  { cluster.planes index with
    queue := cluster.queue, claims := cluster.claims, delays := cluster.stores (config.wal index) }

/-- What a node did becomes visible to the others. -/
def unplug (config : ClusterConfig) (cluster : Cluster) (index : Nat) (plane : Plane) : Cluster :=
  { cluster with
    queue := plane.queue
    claims := plane.claims
    stores := fun store => if store = config.wal index then plane.delays else cluster.stores store
    planes := fun other => if other = index then plane else cluster.planes other }

def isFresh (cluster : Cluster) (uuid : String) : Bool :=
  decide (uuid.length = uuidLength) && cluster.made.all (fun entry => entry.2 ≠ uuid)

def setDirect (cluster : Cluster) (place : Nat) (direct : DirectWorker) : Cluster :=
  { cluster with directs := cluster.directs.set place direct }

/-- A worker without an inbox is done with the message in its hand. -/
def process (config : ClusterConfig) (cluster : Cluster) (place : Nat) (direct : DirectWorker) (copy : Copy) (env : Env)
    (run : PipelineRun) : Cluster :=
  let cluster := cluster.setDirect place { direct with hand := none }
  let plane := cluster.plug config direct.node
  if direct.worker.isMisrouted copy.message then
    match Worker.routeTargeted copy.message with
    | none => cluster
    | some _ => cluster.unplug config direct.node { plane with outbox := plane.outbox ++ [copy.hop] }
  else
    { cluster.unplug config direct.node (plane.apply (config.plane direct.node)
        (direct.worker.processMsg env run copy.message).outcome.1 copy.origin) with
      broadcasts := turned (some copy) run ++ cluster.broadcasts }

def step (config : ClusterConfig) (cluster : Cluster) : ClusterEvent → Option Cluster
  | .node _ (.create ..) => none
  | .node index event =>
    ((cluster.plug config index).step (config.plane index) event).map fun plane =>
      { cluster.unplug config index plane with
        broadcasts := (cluster.plug config index).turned event ++ cluster.broadcasts }
  | .create index uuid timeOut =>
    if cluster.isFresh uuid then
      ((cluster.plug config index).step (config.plane index)
        (.create (workerName (config.node index) config.topic uuid) timeOut)).map fun plane =>
          { cluster.unplug config index plane with made := (index, uuid) :: cluster.made }
    else none
  | .steal index victim =>
    match (cluster.planes index).phase, (cluster.planes victim).phase.unsettled with
    | .idle, some copy => some (cluster.unplug config index { cluster.plug config index with phase := .claimed copy })
    | _, _ => none
  | .startDirect index uuid timeOut =>
    if cluster.isFresh uuid then
      let worker := { topic := config.topic, name := workerName (config.node index) config.topic uuid, timeOut }
      some { cluster with
        directs := cluster.directs ++ [{ node := index, worker }]
        made := (index, uuid) :: cluster.made }
    else none
  | .receive place ack =>
    match cluster.directs[place]?, cluster.queue with
    | some direct, copy :: rest =>
      if direct.stopped || direct.hand.isSome then none
      else
        some { cluster.setDirect place { direct with hand := some copy } with
          queue := rest, claims := if ack then cluster.claims else cluster.claims ++ [copy] }
    | _, _ => none
  | .process place env run =>
    match cluster.directs[place]? with
    | some direct =>
      match direct.stopped, direct.hand with
      | false, some copy => some (cluster.process config place direct copy env run)
      | _, _ => none
    | none => none
  | .stopDirect place =>
    match cluster.directs[place]? with
    | some direct => some (cluster.setDirect place { direct with stopped := true, hand := none })
    | none => none

end Cluster

end EventBase
