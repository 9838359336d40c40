import EventBase.Message

/-! Topic discovery and synchronisation between one Host and its Workers: each node's
topic list, the messages about it, and the handlers that are under way. A handler's reads
of the list, its registrations and its send are steps of their own. -/

namespace EventBase

/-- `TopicRouter::register_topic`. The check and the push hold the list's write lock. -/
def TopicRouter.registerTopic (topics : List String) (topic : String) : List String :=
  if topic ∈ topics then topics else topics ++ [topic]

namespace TopicSync

inductive Node where
  | host
  | worker (index : Nat)
  deriving DecidableEq

/-- A message as one node receives it. Only the Host runs the `TopicDiscovery` handler. -/
inductive Delivery where
  | discovery (worker : Nat)
  | sync (index : Nat) (node : Node)
  deriving DecidableEq

namespace Delivery

def node : Delivery → Node
  | .discovery _ => .host
  | .sync _ node => node

def isDiscovery : Delivery → Bool
  | .discovery _ => true
  | .sync _ _ => false

/-- On the Host the `TopicSync` handler returns at once. -/
def isIgnored : Delivery → Bool
  | .sync _ .host => true
  | _ => false

end Delivery

/-- `known` is the list the handler read first; its loop has `remaining` to look at. -/
inductive Phase where
  | list
  | register (known remaining : List String)
  | relist
  | send (updated : List String)
  | finished
  deriving DecidableEq

structure Handler where
  delivery : Delivery
  items : List String
  phase : Phase

/-- `announced` holds what each Worker has sent to the Host, `syncs` what the Host has sent
to everyone. -/
structure State where
  workers : Nat
  topics : Node → List String
  announced : Nat → Option (List String) := fun _ => none
  syncs : List (List String) := []
  handlers : List Handler := []

/-- Before any message a node knows the topics it registered itself. -/
def start (workers : Nat) (declared : Node → List String) : State where
  workers := workers
  topics node := (declared node).foldl TopicRouter.registerTopic []

def State.register (state : State) (node : Node) (topic : String) : State :=
  { state with topics := Function.update state.topics node (TopicRouter.registerTopic (state.topics node) topic) }

def State.payload (state : State) : Delivery → Option (List String)
  | .discovery worker => state.announced worker
  | .sync index _ => state.syncs[index]?

/-- The next step of `TopicDiscovery::handler` or `TopicSync::handler`: what it does to the
node and where it then stands. -/
def Handler.advance (state : State) (handler : Handler) : Option (State × Phase) :=
  match handler.phase with
  | .list => some (state, .register (state.topics handler.delivery.node) handler.items)
  | .register known (item :: rest) =>
    some (if item ∈ known then state else state.register handler.delivery.node item, .register known rest)
  | .register _ [] => some (state, if handler.delivery.isDiscovery then .relist else .finished)
  | .relist => some (state, .send (state.topics handler.delivery.node))
  | .send updated => some ({ state with syncs := state.syncs ++ [updated] }, .finished)
  | .finished => none

/-- Messages may be delivered in any order and more than once. -/
inductive Event where
  | announce (worker : Nat)
  | deliver (delivery : Delivery)
  | advance (index : Nat)
  deriving DecidableEq

def step (state : State) : Event → Option State
  | .announce worker =>
    if worker < state.workers ∧ state.announced worker = none then
      some { state with announced := Function.update state.announced worker (some (state.topics (.worker worker))) }
    else none
  | .deliver delivery => (state.payload delivery).map fun items =>
      { state with
        handlers := state.handlers ++
          [{ delivery, items, phase := if delivery.isIgnored then .finished else .list }] }
  | .advance index =>
    match state.handlers[index]? with
    | none => none
    | some handler => (handler.advance state).map fun (next, phase) =>
        { next with handlers := next.handlers.set index { handler with phase } }

/-- Every Worker has announced its topics, every message has reached whom it is for, and
every handler has returned. -/
structure Settled (state : State) : Prop where
  announced : ∀ worker < state.workers, (state.announced worker).isSome
  discovered : ∀ worker < state.workers, ∃ handler ∈ state.handlers, handler.delivery = .discovery worker
  synced : ∀ index < state.syncs.length, ∀ worker < state.workers,
    ∃ handler ∈ state.handlers, handler.delivery = .sync index (.worker worker)
  finished : ∀ handler ∈ state.handlers, handler.phase = .finished

end TopicSync

end EventBase
