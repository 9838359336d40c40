import EventBase.Dispatcher
import EventBase.Worker

/-! One message and its copies on one topic, followed from place to place. An event is
what one component does with one copy; the state the component is in at that moment
(the cache and the cursor of a dispatcher, what a recv loop finds in its index, the
answers of the oracles) comes with the event. Claims are acknowledged and what a
dispatcher, a recv loop or a worker relays is accepted. -/

namespace EventBase

inductive Place where
  | queued (msg : EMessage)
  | handed (worker : Worker) (msg : EMessage)
  | delayed (record : WalRecord)
  deriving DecidableEq

/-- One run of a worker's pipeline and the effects of the call around it. -/
structure Handling where
  worker : Worker
  message : EMessage
  run : PipelineRun
  effects : List Effect
  deriving DecidableEq

/-- `letters` is what was sent to other topics. -/
structure Journey where
  places : List Place
  handled : List Handling := []
  letters : List EMessage := []
  relays : Nat := 0
  deriving DecidableEq

/-- `dispatch` is the dispatcher of some node, with the workers it has in its cache;
`recv` a recv loop that finds a worker to forward to or not; `receive` a worker
without an inbox; `fetch` the delay scheduler. -/
inductive JourneyEvent where
  | dispatch (index : Nat) (node : Option String) (workers : List Worker) (cursor : Nat)
  | recv (index : Nat) (found : Bool) (ephemeral : Worker)
  | receive (index : Nat) (worker : Worker)
  | fetch (index : Nat) (env : Env)
  | process (index : Nat) (env : Env) (run : PipelineRun)

def cacheOfWorkers (workers : List Worker) : List CachedWorker :=
  workers.mapIdx fun channel worker => { name := worker.name, channel }

/-- Where an effect puts the message on this topic. -/
def arrival (topic : String) : Effect → Option Place
  | .publish msg => if msg.topic = topic then some (.queued msg) else none
  | .requeue msg => some (.queued msg)
  | .schedule record => some (.delayed record)
  | _ => none

def departure (topic : String) : Effect → Option EMessage
  | .publish msg => if msg.topic = topic then none else some msg
  | _ => none

namespace Journey

/-- The copy at `index` is gone, and these are there instead. -/
def move (journey : Journey) (index : Nat) (places : List Place) : Journey :=
  { journey with places := journey.places.eraseIdx index ++ places }

def relay (journey : Journey) (index : Nat) (msg : EMessage) : Journey :=
  { journey.move index [.queued { msg with attempts := msg.attempts + 1 }] with relays := journey.relays + 1 }

def emit (topic : String) (journey : Journey) (index : Nat) (effects : List Effect) : Journey :=
  { journey.move index (effects.filterMap (arrival topic)) with
    letters := journey.letters ++ effects.filterMap (departure topic) }

def dispatch (journey : Journey) (index : Nat) (msg : EMessage) (node : Option String) (workers : List Worker)
    (cursor : Nat) : Option Journey :=
  match (Dispatcher.plan node (cacheOfWorkers workers) cursor msg).1 with
  | .requeue => some journey
  | .deliver target delivered => workers[target.channel]?.map fun worker => journey.move index [.handed worker delivered]
  | .expire => some (journey.move index [])
  | .relay _ => some (journey.relay index msg)

def recv (journey : Journey) (index : Nat) (msg : EMessage) (found : Bool) (ephemeral : Worker) : Journey :=
  if found then journey
  else if msg.toWorker.isSome then
    if maxTargetedHops ≤ msg.attempts then journey.move index [] else journey.relay index msg
  else journey.move index [.handed ephemeral msg]

def process (topic : String) (journey : Journey) (index : Nat) (worker : Worker) (msg : EMessage) (env : Env)
    (run : PipelineRun) : Journey :=
  if worker.isMisrouted msg then
    match Worker.routeTargeted msg with
    | none => journey.move index []
    | some _ => journey.relay index msg
  else
    let effects := (worker.processMsg env run msg).outcome.1
    { journey.emit topic index effects with handled := journey.handled ++ [⟨worker, msg, run, effects⟩] }

def step (topic : String) (journey : Journey) : JourneyEvent → Option Journey
  | .dispatch index node workers cursor =>
    match journey.places[index]? with
    | some (.queued msg) => journey.dispatch index msg node workers cursor
    | _ => none
  | .recv index found ephemeral =>
    match journey.places[index]? with
    | some (.queued msg) => some (journey.recv index msg found ephemeral)
    | _ => none
  | .receive index worker =>
    match journey.places[index]? with
    | some (.queued msg) => some (journey.move index [.handed worker msg])
    | _ => none
  | .fetch index env =>
    match journey.places[index]? with
    | some (.delayed record) => some (journey.emit topic index (deliverDelayed env record).outcome.1)
    | _ => none
  | .process index env run =>
    match journey.places[index]? with
    | some (.handed worker msg) => some (journey.process topic index worker msg env run)
    | _ => none

end Journey

end EventBase
