import EventBase.ConsumerRouter

/-! A node on the crossfire backend with all its topics. `create_queue` makes a
channel of its own for every topic and enters it into the routing table of the
global producer; every topic with workers has a dispatch loop, and a topic that
was deleted and registered again leaves its old channel and loop behind. The
default channel is left out: no producer ever writes to it. -/

namespace EventBase

structure CrossfireConfig where
  node : Option String := none
  capacity : Nat := 1024
  inboxCapacity : Nat := 256

/-- A channel and the topic it was made for. -/
structure TopicChannel where
  topic : String
  messages : List EMessage := []
  deriving DecidableEq

/-- A worker's task behind its inbox. `queue` is the channel its own producer writes to. -/
structure InboxWorker where
  worker : Worker
  queue : Nat
  inbox : List EMessage := []
  hand : Option EMessage := none
  stopped : Bool := false
  closed : Bool := false
  deriving DecidableEq

/-- Where a dispatch loop is between two claims. `returning` waits for room in the
channel, inside `nack` or the send of a relay. -/
inductive LoopPhase where
  | idle
  | claimed (msg : EMessage)
  | loaded (msg : EMessage) (generation : Nat)
  | named (msg : EMessage) (generation : Nat) (names : List String)
  | ready (msg : EMessage)
  | returning (msg : EMessage)
  deriving DecidableEq

structure ChannelLoop where
  topic : String
  queue : Nat
  dispatcher : Dispatcher := {}
  phase : LoopPhase := .idle
  deriving DecidableEq

/-- What a task still has to do to the outside; `queue` is the channel of the
worker it runs for. -/
structure Job where
  effects : List Effect
  queue : Option Nat := none
  deriving DecidableEq

/-- `delays` is what the delay store was given and has not handed out. `started`
records every message a worker began to process. -/
structure CrossfireNode where
  router : ConsumerRouter := {}
  routes : Table Nat := ∅
  channels : List TopicChannel := []
  workers : List InboxWorker := []
  loops : List ChannelLoop := []
  jobs : List Job := []
  delays : List WalRecord := []
  started : List (Worker × EMessage) := []

inductive LoopAction where
  | claim
  | loadGeneration
  | readNames
  | readInboxes
  | act
  | resume

/-- `stop` ends the task, `close` drops its inbox. -/
inductive WorkerAction where
  | receive
  | process (env : Env) (run : PipelineRun)
  | stop
  | close

/-- `perform` takes the next effect of a job; `system` is the message around an
audit record or a status report. -/
inductive CrossfireEvent where
  | register (topic : String)
  | createWorker (worker : Worker)
  | delWorker (name : String)
  | delWorkers (topic : String)
  | send (env : Env) (topic : String) (msg : EMessage) (trySend : Option Bool) (timeout : Option Duration)
  | sendSystem (env : Env) (msg : EMessage) (trySend : Option Bool) (timeout : Option Duration)
  | perform (job : Nat) (system : EMessage)
  | fetch (index : Nat) (env : Env)
  | loop (index : Nat) (action : LoopAction)
  | worker (index : Nat) (action : WorkerAction)

namespace CrossfireNode

def setLoop (node : CrossfireNode) (index : Nat) (loop : ChannelLoop) : CrossfireNode :=
  { node with loops := node.loops.set index loop }

def setWorker (node : CrossfireNode) (index : Nat) (worker : InboxWorker) : CrossfireNode :=
  { node with workers := node.workers.set index worker }

def addJob (node : CrossfireNode) (effects : List Effect) (queue : Option Nat) : CrossfireNode :=
  { node with jobs := node.jobs ++ [{ effects, queue }] }

/-- `create_queue` is only called for a topic the router does not have. -/
def register (node : CrossfireNode) (topic : String) : CrossfireNode :=
  if topic ∈ node.router.localTopics then node
  else
    { node with
      router := (node.router.register topic (.ok node.channels.length)).2
      routes := node.routes.insert topic node.channels.length
      channels := node.channels ++ [{ topic }] }

def createWorker (node : CrossfireNode) (worker : Worker) : CrossfireNode :=
  match node.router.localTopics.lookup worker.topic with
  | none => node
  | some entry =>
    { node with
      router := (node.router.createWorker worker).2
      workers := node.workers ++ [{ worker, queue := entry.queue }]
      loops := if node.router.isEnabled worker.topic then node.loops
        else node.loops ++ [{ topic := worker.topic, queue := entry.queue }] }

def push (config : CrossfireConfig) (node : CrossfireNode) (index : Nat) (msg : EMessage) : Option CrossfireNode :=
  node.channels[index]?.bind fun channel =>
    if channel.messages.length < config.capacity then
      some { node with channels := node.channels.set index { channel with messages := channel.messages ++ [msg] } }
    else none

/-- The routing producer, for a send that was accepted. -/
def route (config : CrossfireConfig) (node : CrossfireNode) (msg : EMessage) : Option CrossfireNode :=
  match node.routes.lookup msg.topic with
  | some channel => node.push config channel msg
  | none => if isSystemTopic msg.topic then some node else none

def perform (config : CrossfireConfig) (node : CrossfireNode) (queue : Option Nat) (system : EMessage) :
    Effect → Option CrossfireNode
  | .publish msg => node.route config msg
  | .audit _ => node.route config { system with topic := systemTopicAudit }
  | .walSync _ => node.route config { system with topic := systemTopicWalSync }
  | .requeue msg => queue.bind fun channel => node.push config channel msg
  | .schedule record => some { node with delays := node.delays ++ [record] }

/-- The dispatch loop acts on the claimed message. -/
def act (config : CrossfireConfig) (node : CrossfireNode) (index : Nat) (loop : ChannelLoop) (msg : EMessage) :
    Option CrossfireNode :=
  let (plan, cursor) := Dispatcher.plan config.node loop.dispatcher.cached loop.dispatcher.cursor msg
  let dispatcher := { loop.dispatcher with cursor := cursor }
  match plan with
  | .requeue => some (node.setLoop index { loop with dispatcher := dispatcher, phase := .returning msg })
  | .deliver target delivered =>
    node.workers[target.channel]?.map fun worker =>
      if !worker.closed && decide (worker.inbox.length < config.inboxCapacity) then
        (node.setLoop index { loop with dispatcher := dispatcher, phase := .idle }).setWorker target.channel
          { worker with inbox := worker.inbox ++ [delivered] }
      else
        node.setLoop index
          { loop with dispatcher := { dispatcher with seenGeneration := none }, phase := .returning msg }
  | .expire => some (node.setLoop index { loop with dispatcher := dispatcher, phase := .idle })
  | .relay relayed => some (node.setLoop index { loop with dispatcher := dispatcher, phase := .returning relayed })

def claim (node : CrossfireNode) (index : Nat) (loop : ChannelLoop) : Option CrossfireNode :=
  node.channels[loop.queue]?.bind fun channel =>
    match channel.messages with
    | msg :: rest =>
      some ({ node with channels := node.channels.set loop.queue { channel with messages := rest } }.setLoop index
        { loop with phase := .claimed msg })
    | [] => none

def loopStep (config : CrossfireConfig) (node : CrossfireNode) (index : Nat) (loop : ChannelLoop) :
    LoopAction → LoopPhase → Option CrossfireNode
  | .claim, .idle => node.claim index loop
  | .loadGeneration, .claimed msg =>
    if loop.dispatcher.isStale node.router.dispatchGeneration then
      some (node.setLoop index { loop with phase := .loaded msg node.router.dispatchGeneration })
    else some (node.setLoop index { loop with phase := .ready msg })
  | .readNames, .loaded msg generation =>
    some (node.setLoop index { loop with phase := .named msg generation (node.router.published loop.topic) })
  | .readInboxes, .named msg generation names =>
    some (node.setLoop index { loop with
      dispatcher := loop.dispatcher.setCache generation (Dispatcher.cacheOf names node.router.localInboxes)
      phase := .ready msg })
  | .act, .ready msg => node.act config index loop msg
  | .resume, .returning msg => (node.setLoop index { loop with phase := .idle }).push config loop.queue msg
  | _, _ => none

/-- The worker is done with the message in its hand. -/
def process (node : CrossfireNode) (index : Nat) (worker : InboxWorker) (msg : EMessage) (env : Env)
    (run : PipelineRun) : CrossfireNode :=
  let node := node.setWorker index { worker with hand := none }
  if worker.worker.isMisrouted msg then
    node.addJob ((Worker.routeTargeted msg).map Effect.requeue).toList (some worker.queue)
  else
    { node.addJob (worker.worker.processMsg env run msg).outcome.1 (some worker.queue) with
      started := node.started ++ [(worker.worker, msg)] }

def workerStep (node : CrossfireNode) (index : Nat) (worker : InboxWorker) : WorkerAction → Option CrossfireNode
  | .receive =>
    match worker.stopped, worker.hand, worker.inbox with
    | false, none, msg :: rest => some (node.setWorker index { worker with hand := some msg, inbox := rest })
    | _, _, _ => none
  | .process env run =>
    match worker.stopped, worker.hand with
    | false, some msg => some (node.process index worker msg env run)
    | _, _ => none
  | .stop => some (node.setWorker index { worker with stopped := true, hand := none })
  | .close => if worker.stopped then some (node.setWorker index { worker with closed := true, inbox := [] }) else none

def step (config : CrossfireConfig) (node : CrossfireNode) : CrossfireEvent → Option CrossfireNode
  | .register topic => some (node.register topic)
  | .createWorker worker =>
    if node.workers.all (fun other => other.worker.name ≠ worker.name) then some (node.createWorker worker) else none
  | .delWorker name => some { node with router := (node.router.delWorker name).2 }
  | .delWorkers topic => some { node with router := (node.router.delWorkers topic).2 }
  | .send env topic msg trySend timeout =>
    some (node.addJob (TopicRouter.send env topic msg trySend timeout).outcome.1 none)
  | .sendSystem env msg trySend timeout => some (node.addJob (emit env msg trySend timeout).outcome.1 none)
  | .perform index system =>
    node.jobs[index]?.bind fun job =>
      match job.effects with
      | effect :: rest =>
        { node with jobs := node.jobs.set index { job with effects := rest } }.perform config job.queue system effect
      | [] => none
  | .fetch index env =>
    node.delays[index]?.map fun record =>
      { node with delays := node.delays.eraseIdx index }.addJob (deliverDelayed env record).outcome.1 none
  | .loop index action => node.loops[index]?.bind fun loop => node.loopStep config index loop action loop.phase
  | .worker index action => node.workers[index]?.bind fun worker => node.workerStep index worker action

end CrossfireNode

end EventBase
