import EventBase.Wal

/-! The routing table of the crossfire backend while topics are registered and
messages are sent. `create_queue` runs inside `ConsumerRouter::register`, under
the write guard of `local_topics`, and does not wait for the table's lock. -/

namespace EventBase

/-- Where a `register` stands: before `local_topics`, inside it, inside
`create_queue`, with the table's write guard, and back in `register`. -/
inductive RegisterPhase where
  | waiting
  | entered
  | creating
  | inserting (channel : Nat)
  | created (channel : Nat)
  | returned (result : Except CoreError Unit)
  | panicked (text : String)
  deriving DecidableEq

/-- Where a `send` or `try_send` stands: before the table's read guard, with it, and
with the channel it found there. -/
inductive SendPhase where
  | waiting
  | reading
  | sending (channel : Nat)
  | returned (result : Except CoreError Unit)
  deriving DecidableEq

inductive RoutingTask where
  | register (topic : String) (phase : RegisterPhase)
  | send (attempt : Bool) (message : EMessage) (phase : SendPhase)
  deriving DecidableEq

namespace RoutingTask

def holdsTopics : RoutingTask → Bool
  | .register _ .entered | .register _ .creating | .register _ (.inserting _) | .register _ (.created _) => true
  | _ => false

def holdsTable : RoutingTask → Bool
  | .register _ (.inserting _) => true
  | _ => false

def readsTable : RoutingTask → Bool
  | .send _ _ .reading => true
  | _ => false

end RoutingTask

/-- `routes` leads from a topic to its channel, `localTopics` holds what `register`
has entered. -/
structure RoutingState where
  routes : Table Nat := ∅
  channels : List (List EMessage) := []
  localTopics : Table Nat := ∅
  tasks : List RoutingTask := []

inductive RoutingEvent where
  | register (topic : String)
  | send (attempt : Bool) (message : EMessage)
  | advance (task : Nat)
  | receive (channel : Nat)

namespace RoutingState

def setTask (state : RoutingState) (index : Nat) (task : RoutingTask) : RoutingState :=
  { state with tasks := state.tasks.set index task }

def isFull (capacity : Nat) (state : RoutingState) (channel : Nat) : Bool :=
  state.channels[channel]?.any (fun messages => capacity ≤ messages.length)

def tableFree (state : RoutingState) : Bool :=
  !state.tasks.any RoutingTask.readsTable && !state.tasks.any RoutingTask.holdsTable

/-- `try_write` with its `expect`, and the insertion under the guard. -/
def createQueue (state : RoutingState) (index : Nat) (topic : String) : RoutingState :=
  if state.tableFree then
    { state.setTask index (.register topic (.inserting state.channels.length)) with
      routes := state.routes.insert topic state.channels.length
      channels := state.channels ++ [[]] }
  else state.setTask index (.register topic (.panicked "create_queue: routing table lock contention"))

def register (state : RoutingState) (index : Nat) (topic : String) : RegisterPhase → Option RoutingState
  | .waiting => if state.tasks.any RoutingTask.holdsTopics then none else some (state.setTask index (.register topic .entered))
  | .entered =>
    if topic ∈ state.localTopics then
      some (state.setTask index (.register topic (.returned (.error (.topic (.alreadyExists topic))))))
    else some (state.setTask index (.register topic .creating))
  | .creating => some (state.createQueue index topic)
  | .inserting channel => some (state.setTask index (.register topic (.created channel)))
  | .created channel =>
    some { state.setTask index (.register topic (.returned (.ok ()))) with
      localTopics := state.localTopics.insert topic channel }
  | .returned _ | .panicked _ => none

def lookUp (capacity : Nat) (state : RoutingState) (attempt : Bool) (msg : EMessage) : SendPhase :=
  match state.routes.lookup msg.topic with
  | some channel =>
    if attempt && state.isFull capacity channel then .returned (.error (.queue .full)) else .sending channel
  | none =>
    if isSystemTopic msg.topic then .returned (.ok ())
    else .returned (.error (.queue (.send ("topic '" ++ msg.topic ++ "' is not registered"))))

/-- A channel that is full makes the sender wait. -/
def send (capacity : Nat) (state : RoutingState) (index : Nat) (attempt : Bool) (msg : EMessage) :
    SendPhase → Option RoutingState
  | .waiting =>
    if state.tasks.any RoutingTask.holdsTable then none else some (state.setTask index (.send attempt msg .reading))
  | .reading => some (state.setTask index (.send attempt msg (state.lookUp capacity attempt msg)))
  | .sending channel =>
    if state.isFull capacity channel then none
    else
      some { state.setTask index (.send attempt msg (.returned (.ok ()))) with
        channels := state.channels.modify channel (· ++ [msg]) }
  | .returned _ => none

def step (capacity : Nat) (state : RoutingState) : RoutingEvent → Option RoutingState
  | .register topic => some { state with tasks := state.tasks ++ [.register topic .waiting] }
  | .send attempt msg => some { state with tasks := state.tasks ++ [.send attempt msg .waiting] }
  | .advance index =>
    state.tasks[index]?.bind fun task =>
      match task with
      | .register topic phase => state.register index topic phase
      | .send attempt msg phase => state.send capacity index attempt msg phase
  | .receive channel =>
    state.channels[channel]?.bind fun messages =>
      if messages.isEmpty then none
      else some { state with channels := state.channels.set channel messages.tail }

end RoutingState

end EventBase
