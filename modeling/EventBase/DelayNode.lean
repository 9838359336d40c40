import EventBase.DelayScheduler
import EventBase.Worker

/-! Delayed messages against the clock: tasks send or retry messages, the delay store
keeps them, and the delay scheduler hands over what it fetched. The in-process stores
run one call at a time, Redis clients run theirs command by command. -/

namespace EventBase

/-- A delay store with the calls under way on it. -/
inductive DelayService where
  | inProcess (store : WalStore)
  | redis (state : DelayClients)

namespace DelayService

/-- A task begins a call; the in-process stores answer at once. -/
def call (client : Nat) (request : DelayCall) : DelayService → Option (DelayService × List WalRecord)
  | .inProcess store =>
    match request with
    | .schedule record => some (.inProcess (store.schedule record), [])
    | .fetchReady now => some (.inProcess (store.fetchReady now).2, (store.fetchReady now).1)
    | .removeScheduled messageId => some (.inProcess (store.removeScheduled messageId), [])
  | .redis state => (state.step (.start client request)).map fun next => (.redis next, [])

/-- What a `fetch_ready` that returns now brings back. -/
def reply (state : DelayClients) : DelayEvent → List WalRecord
  | .finish client =>
    match state.clients[client]? with
    | some (.claiming fetch) => fetch.ready
    | _ => []
  | _ => []

def advance (event : DelayEvent) : DelayService → Option (DelayService × List WalRecord)
  | .inProcess _ => none
  | .redis state => (state.step event).map fun next => (.redis next, reply state event)

end DelayService

/-- A message given to the queue producer, and the instant it had to wait for. -/
structure Handover where
  message : EMessage
  notBefore : Option SystemTime
  time : SystemTime

/-- `fetched` is what the scheduler has fetched and not sent yet. -/
structure DelayNode where
  service : DelayService
  clock : SystemTime
  fetched : List WalRecord := []
  handed : List Handover := []

/-- `retry` is a handler's `NoAck` with a `retry_after`; every other send is a `send`. -/
inductive DelayNodeEvent where
  | tick (now : SystemTime)
  | send (client : Nat) (env : Env) (topic : String) (msg : EMessage) (trySend : Option Bool) (timeout : Option Duration)
  | retry (client : Nat) (env : Env) (worker : Worker) (msg : EMessage) (delay : Duration) (maxRetries : UInt32)
    (processTime : Duration)
  | remove (client : Nat) (messageId : String)
  | fetch (client : Nat)
  | command (client : Nat)
  | finish (client : Nat)
  | fail (client : Nat)
  | deliver (client : Nat) (env : Env)

namespace DelayNode

def call (client : Nat) (request : DelayCall) (node : DelayNode) : Option DelayNode :=
  (node.service.call client request).map fun (service, fetched) =>
    { node with service, fetched := node.fetched ++ fetched }

def advance (event : DelayEvent) (node : DelayNode) : Option DelayNode :=
  (node.service.advance event).map fun (service, fetched) => { node with service, fetched := node.fetched ++ fetched }

def handOver (notBefore : Option SystemTime) (message : EMessage) (node : DelayNode) : DelayNode :=
  { node with handed := node.handed ++ [⟨message, notBefore, node.clock⟩] }

/-- The effects of a task whose message has to wait for `notBefore`. -/
def apply (client : Nat) (notBefore : Option SystemTime) (node : DelayNode) : List Effect → Option DelayNode
  | [] => some node
  | .schedule record :: rest => (node.call client (.schedule record)).bind fun next => next.apply client notBefore rest
  | .publish message :: rest | .requeue message :: rest =>
    (node.handOver notBefore message).apply client notBefore rest
  | .audit _ :: rest | .walSync _ :: rest => node.apply client notBefore rest

def read (node : DelayNode) (env : Env) : Env := { env with clock := fun _ => node.clock }

def step (node : DelayNode) : DelayNodeEvent → Option DelayNode
  | .tick now => if node.clock ≤ now then some { node with clock := now } else none
  | .send client env topic msg trySend timeout =>
    node.apply client msg.deliverAt (TopicRouter.send (node.read env) topic msg trySend timeout).outcome.1
  | .retry client env worker msg delay maxRetries processTime =>
    if maxRetries ≤ msg.attempts + 1 then none
    else
      node.apply client (some (node.clock + delay))
        (worker.onNoAck (node.read env) msg (some delay) maxRetries processTime).outcome.1
  | .remove client messageId => node.call client (.removeScheduled messageId)
  | .fetch client => node.call client (.fetchReady node.clock)
  | .command client => node.advance (.command client)
  | .finish client => node.advance (.finish client)
  | .fail client => node.advance (.fail client)
  | .deliver client env =>
    match node.fetched with
    | [] => none
    | record :: rest =>
      { node with fetched := rest }.apply client record.message.deliverAt (deliverDelayed (node.read env) record).outcome.1

end DelayNode

end EventBase
