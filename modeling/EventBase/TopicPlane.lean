import EventBase.Dispatcher
import EventBase.Worker

/-! One topic on one node as a state machine: its queue, the dispatch loop at the
granularity of the shared maps it reads, the workers behind their inboxes, the
delay store, and the creation and removal of workers while all of this runs. -/

namespace EventBase

/-- A message somewhere on its way. `origin` is the message that entered
`TopicRouter::send`, of which this is what became or a copy. -/
structure Copy where
  message : EMessage
  origin : EMessage
  deriving DecidableEq

/-- One return of a worker's pipeline. -/
structure Answer where
  origin : EMessage
  worker : String
  status : Ack
  deriving DecidableEq

/-- A worker's task. It is Working while it has a message in hand. `accepted` and
`completed` record what entered its inbox and what `process_msg` returned from. -/
structure Cell where
  worker : Worker
  inbox : List Copy := []
  hand : Option Copy := none
  registered : Bool := false
  notified : Bool := false
  aborted : Bool := false
  stopped : Bool := false
  closed : Bool := false
  accepted : List Copy := []
  completed : List Copy := []
  deriving DecidableEq

/-- Where the dispatch loop is between two claims. It waits for room in the queue
inside `nack` and inside the send of a relay. -/
inductive Phase where
  | idle
  | claimed (copy : Copy)
  | loaded (copy : Copy) (generation : Nat)
  | named (copy : Copy) (generation : Nat) (names : List String)
  | ready (copy : Copy)
  | nacking (copy : Copy)
  | waiting (copy : Copy)
  | sending (copy : Copy)
  deriving DecidableEq

def Phase.copies : Phase → List Copy
  | .idle => []
  | .claimed copy | .loaded copy _ | .named copy _ _ | .ready copy | .nacking copy | .waiting copy
  | .sending copy => [copy]

/-- `sharedQueue` holds for the backends whose main consumer reads the same
channel as the topic's dispatcher. -/
structure PlaneConfig where
  node : Option String
  topic : String
  capacity : Option Nat := none
  inboxCapacity : Nat := 256
  sharedQueue : Bool := false

/-- `outbox` holds the sends under way, `claims` the claims whose acknowledgement
failed, `dropped` what was given up at the hop cap, `handled` the answers the
workers acted on. -/
structure Plane where
  outbox : List Copy := []
  queue : List Copy := []
  claims : List Copy := []
  delays : List Copy := []
  fetched : List Copy := []
  ephemerals : List Copy := []
  phase : Phase := .idle
  dispatcher : Dispatcher := {}
  maps : WorkerMaps := { names := [], inboxes := ∅, generation := 0 }
  cells : List Cell := []
  dropped : List Copy := []
  handled : List Answer := []
  deriving DecidableEq

inductive PlaneEvent where
  | submit (env : Env) (msg : EMessage)
  | push (index : Nat)
  | claim
  | reclaim (index : Nat)
  | loadGeneration
  | readNames
  | readInboxes
  | act (ack send : Bool)
  | nack (outcome : NackOutcome)
  | resume
  | recv (idle sent ack : Bool)
  | fetch (now : SystemTime)
  | deliverDelayed (env : Env)
  | receive (channel : Nat)
  | finish (channel : Nat) (env : Env) (run : PipelineRun)
  | finishEphemeral (index : Nat) (name : String) (env : Env) (run : PipelineRun)
  | create (name : String) (timeOut : Option Duration)
  | register (channel : Nat)
  | notify (channel : Nat)
  | exit (channel : Nat)
  | unregister (channel : Nat)
  | unmap (channel : Nat)
  | forget (channel : Nat)
  | stop (channel : Nat)
  | close (channel : Nat)

def PlaneConfig.hasRoom (config : PlaneConfig) (queue : List Copy) : Bool :=
  match config.capacity with
  | some capacity => decide (queue.length < capacity)
  | none => true

/-- `try_send` succeeds on an inbox that is open and not full. -/
def Cell.accepts (config : PlaneConfig) (cell : Cell) : Bool :=
  !cell.closed && decide (cell.inbox.length < config.inboxCapacity)

def Cell.copies (cell : Cell) : List Copy := cell.hand.toList ++ cell.inbox

def outgoing (topic : String) : Effect → Option EMessage
  | .publish msg => if msg.topic = topic then some msg else none
  | .requeue msg => some msg
  | _ => none

def scheduled : Effect → Option EMessage
  | .schedule record => some record.message
  | _ => none

/-- The delay store keeps one entry per message id. -/
def insertDelay (delays : List Copy) (copy : Copy) : List Copy :=
  copy :: delays.filter (fun other => other.message.id ≠ copy.message.id)

def Copy.isDue (now : SystemTime) (copy : Copy) : Bool :=
  match copy.message.deliverAt with
  | some deliverAt => decide (deliverAt ≤ now)
  | none => false

namespace Plane

/-- What a task's effects leave on this topic; the copies inherit the origin. -/
def apply (config : PlaneConfig) (plane : Plane) (effects : List Effect) (origin : EMessage) : Plane :=
  { plane with
    outbox := plane.outbox ++ (effects.filterMap (outgoing config.topic)).map (Copy.mk · origin)
    delays := ((effects.filterMap scheduled).map (Copy.mk · origin)).foldl insertDelay plane.delays }

def setCell (plane : Plane) (channel : Nat) (cell : Cell) : Plane :=
  { plane with cells := plane.cells.set channel cell }

/-- A claim whose acknowledgement fails stays with the consumer. -/
def unacked (plane : Plane) (ack : Bool) (copy : Copy) : List Copy :=
  if ack then plane.claims else plane.claims ++ [copy]

/-- The worker a recv loop finds under a target. -/
def indexed (config : PlaneConfig) (plane : Plane) (target : String) : Bool :=
  plane.cells.any (fun cell => cell.registered && resolves config.node target cell.worker.name)

end Plane

def Copy.hop (copy : Copy) : Copy :=
  { copy with message := { copy.message with attempts := copy.message.attempts + 1 } }

namespace Plane

/-- The dispatch loop acts on the claimed message. -/
def act (config : PlaneConfig) (plane : Plane) (copy : Copy) (ack send : Bool) : Option Plane :=
  let (plan, cursor) := Dispatcher.plan config.node plane.dispatcher.cached plane.dispatcher.cursor copy.message
  let dispatcher := { plane.dispatcher with cursor := cursor }
  match plan with
  | .requeue => some { plane with dispatcher := dispatcher, phase := .nacking copy }
  | .deliver target msg =>
    match plane.cells[target.channel]? with
    | some cell =>
      if cell.accepts config then
        let delivered : Copy := ⟨msg, copy.origin⟩
        some ({ plane with dispatcher := dispatcher, phase := .idle, claims := plane.unacked ack copy }.setCell
          target.channel { cell with inbox := cell.inbox ++ [delivered], accepted := cell.accepted ++ [delivered] })
      else
        some { plane with dispatcher := { dispatcher with seenGeneration := none }, phase := .nacking copy }
    | none => none
  | .expire =>
    some { plane with
      dispatcher := dispatcher, phase := .idle, claims := plane.unacked ack copy, dropped := plane.dropped ++ [copy] }
  | .relay _ =>
    some { plane with
      dispatcher := dispatcher, phase := if send then .sending copy.hop else .idle
      claims := plane.unacked ack copy }

def nack (config : PlaneConfig) (plane : Plane) (copy : Copy) : NackOutcome → Plane
  | .requeued =>
    if config.hasRoom plane.queue then { plane with queue := plane.queue ++ [copy], phase := .idle }
    else { plane with phase := .waiting copy }
  | .requeuedUnreleased =>
    { plane with queue := plane.queue ++ [copy], claims := plane.claims ++ [copy], phase := .idle }
  | .failed => { plane with claims := plane.claims ++ [copy], phase := .idle }

/-- The recv loop takes the head of a shared queue. A resolved target gets the
message back onto the topic queue, unchanged, through its worker's producer. -/
def recv (config : PlaneConfig) (plane : Plane) (copy : Copy) (rest : List Copy) (idle sent ack : Bool) : Plane :=
  let plane := { plane with queue := rest, claims := plane.unacked ack copy }
  match copy.message.toWorker with
  | some target =>
    if plane.indexed config target then { plane with outbox := plane.outbox ++ [copy] }
    else if maxTargetedHops ≤ copy.message.attempts then { plane with dropped := plane.dropped ++ [copy] }
    else { plane with outbox := plane.outbox ++ [if sent then copy.hop else copy] }
  | none =>
    if idle then { plane with outbox := plane.outbox ++ [copy] }
    else { plane with ephemerals := plane.ephemerals ++ [copy] }

/-- A worker is done with the message in its hand. -/
def finish (config : PlaneConfig) (plane : Plane) (channel : Nat) (cell : Cell) (copy : Copy) (env : Env)
    (run : PipelineRun) : Plane :=
  if cell.worker.isMisrouted copy.message then
    let plane := plane.setCell channel { cell with hand := none }
    match Worker.routeTargeted copy.message with
    | none => { plane with dropped := plane.dropped ++ [copy] }
    | some _ => { plane with outbox := plane.outbox ++ [copy.hop] }
  else
    let plane := plane.setCell channel { cell with hand := none, completed := cell.completed ++ [copy] }
    let plane := plane.apply config (cell.worker.processMsg env run copy.message).outcome.1 copy.origin
    { plane with handled := plane.handled ++ [⟨copy.origin, cell.worker.name, cell.worker.status run⟩] }

def step (config : PlaneConfig) (plane : Plane) : PlaneEvent → Option Plane
  | .submit env msg =>
    some (plane.apply config (TopicRouter.send env config.topic msg none none).outcome.1 msg)
  | .push index =>
    match plane.outbox[index]? with
    | some copy =>
      if config.hasRoom plane.queue then
        some { plane with outbox := plane.outbox.eraseIdx index, queue := plane.queue ++ [copy] }
      else none
    | none => none
  | .claim =>
    match plane.phase, plane.queue with
    | .idle, copy :: rest => some { plane with phase := .claimed copy, queue := rest }
    | _, _ => none
  | .reclaim index =>
    match plane.phase, plane.claims[index]? with
    | .idle, some copy => some { plane with phase := .claimed copy, claims := plane.claims.eraseIdx index }
    | _, _ => none
  | .loadGeneration =>
    match plane.phase with
    | .claimed copy =>
      if plane.dispatcher.isStale plane.maps.generation then
        some { plane with phase := .loaded copy plane.maps.generation }
      else some { plane with phase := .ready copy }
    | _ => none
  | .readNames =>
    match plane.phase with
    | .loaded copy generation => some { plane with phase := .named copy generation plane.maps.names }
    | _ => none
  | .readInboxes =>
    match plane.phase with
    | .named copy generation names =>
      some { plane with
        dispatcher := plane.dispatcher.setCache generation (Dispatcher.cacheOf names plane.maps.inboxes)
        phase := .ready copy }
    | _ => none
  | .act ack send =>
    match plane.phase with
    | .ready copy => plane.act config copy ack send
    | _ => none
  | .nack outcome =>
    match plane.phase with
    | .nacking copy => some (plane.nack config copy outcome)
    | _ => none
  | .resume =>
    match plane.phase with
    | .waiting copy | .sending copy =>
      if config.hasRoom plane.queue then some { plane with queue := plane.queue ++ [copy], phase := .idle } else none
    | _ => none
  | .recv idle sent ack =>
    match plane.queue with
    | copy :: rest => if config.sharedQueue then some (plane.recv config copy rest idle sent ack) else none
    | [] => none
  | .fetch now =>
    some { plane with
      delays := plane.delays.filter (fun copy => !copy.isDue now)
      fetched := plane.fetched ++ plane.delays.filter (Copy.isDue now) }
  | .deliverDelayed env =>
    match plane.fetched with
    | copy :: rest =>
      some ({ plane with fetched := rest }.apply config
        (EventBase.deliverDelayed env (WalRecord.fromMsg copy.message)).outcome.1 copy.origin)
    | [] => none
  | .receive channel =>
    match plane.cells[channel]? with
    | some cell =>
      match cell.stopped, cell.hand, cell.inbox with
      | false, none, copy :: rest => some (plane.setCell channel { cell with hand := some copy, inbox := rest })
      | _, _, _ => none
    | none => none
  | .finish channel env run =>
    match plane.cells[channel]? with
    | some cell =>
      match cell.stopped, cell.hand with
      | false, some copy => some (plane.finish config channel cell copy env run)
      | _, _ => none
    | none => none
  | .finishEphemeral index name env run =>
    match plane.ephemerals[index]? with
    | some copy =>
      some ({ plane with ephemerals := plane.ephemerals.eraseIdx index }.apply config
        (Worker.processMsg env { topic := config.topic, name := name } run copy.message).outcome.1 copy.origin)
    | none => none
  | .create name timeOut =>
    if plane.cells.all (fun cell => cell.worker.name ≠ name) then
      some { plane with
        cells := plane.cells ++ [{ worker := { topic := config.topic, name := name, timeOut := timeOut } }]
        maps := { plane.maps with inboxes := plane.maps.inboxes.insert name plane.cells.length } }
    else none
  | .register channel =>
    match plane.cells[channel]? with
    | some cell =>
      if cell.registered || cell.aborted then none
      else
        some { plane.setCell channel { cell with registered := true } with
          maps := { plane.maps with
            names := plane.maps.names ++ [cell.worker.name], generation := plane.maps.generation + 1 } }
    | none => none
  | .notify channel =>
    match plane.cells[channel]? with
    | some cell => some (plane.setCell channel { cell with notified := true })
    | none => none
  | .exit channel =>
    match plane.cells[channel]? with
    | some cell =>
      if cell.notified && cell.hand.isNone then some (plane.setCell channel { cell with stopped := true }) else none
    | none => none
  | .unregister channel =>
    match plane.cells[channel]? with
    | some cell =>
      if cell.registered then some (plane.setCell channel { cell with registered := false, aborted := true }) else none
    | none => none
  | .unmap channel =>
    match plane.cells[channel]? with
    | some cell =>
      if cell.aborted then
        some { plane with maps := { plane.maps with inboxes := plane.maps.inboxes.erase cell.worker.name } }
      else none
    | none => none
  | .forget channel =>
    match plane.cells[channel]? with
    | some cell =>
      if cell.aborted && decide (cell.worker.name ∉ plane.maps.inboxes) then
        some { plane with
          maps := { plane.maps with
            names := plane.maps.names.filter (fun name => name ≠ cell.worker.name)
            generation := plane.maps.generation + 1 } }
      else none
    | none => none
  | .stop channel =>
    match plane.cells[channel]? with
    | some cell =>
      if cell.aborted then some (plane.setCell channel { cell with stopped := true, hand := none }) else none
    | none => none
  | .close channel =>
    match plane.cells[channel]? with
    | some cell =>
      if cell.aborted && cell.stopped then some (plane.setCell channel { cell with closed := true, inbox := [] })
      else none
    | none => none

/-- Every copy of a message that is still on its way on this topic. -/
def live (plane : Plane) : List Copy :=
  plane.outbox ++ plane.queue ++ plane.claims ++ plane.delays ++ plane.fetched ++ plane.ephemerals ++
    plane.phase.copies ++ plane.cells.flatMap Cell.copies

end Plane

end EventBase
