import EventBase.MemoryQueue

/-! The queue factories of flume and mpmc. `create_queue` does not look at its
topic: every producer and every consumer it hands out is a handle of the one
channel the factory was made with. -/

namespace EventBase

/-- A message and the topic it was sent for. -/
structure Parcel where
  message : EMessage
  topic : String
  deriving DecidableEq, Repr

/-- `topics` are those `create_queue` was called for and `owners` says for which of
them each consumer was created; the main consumer serves no particular topic.
`yielded` records what each consumer gave out. -/
structure SharedFactory where
  queue : MemoryQueue Parcel := {}
  topics : List String := []
  owners : List (Option String) := []
  yielded : List (Option String × Parcel) := []

/-- A producer is known by the `create_queue` call that returned it; the global
producer by none. -/
inductive FactoryCall where
  | createQueue (topic : String)
  | createConsumer (queue : Nat)
  | createMainConsumer
  | send (producer : Option Nat) (msg : EMessage)
  | trySend (producer : Option Nat) (msg : EMessage)
  | consume (call : QueueCall Parcel)

def QueueCall.consumer {α : Type} : QueueCall α → Option Nat
  | .createConsumer | .send _ | .trySend _ => none
  | .receive consumer | .claim consumer | .claimBatch consumer _ | .ack consumer _ | .nack consumer _ => some consumer

/-- The messages a reply hands to the caller. -/
def QueueReply.messages {α : Type} : QueueReply α → List α
  | .created _ | .result _ => []
  | .received msg => msg.toList
  | .claimed claim => (claim.map ClaimedMessage.message).toList
  | .batch claims => claims.map ClaimedMessage.message

namespace SharedFactory

/-- The topic a message is sent for through this producer. -/
def label (factory : SharedFactory) (msg : EMessage) : Option Nat → Option String
  | none => some msg.topic
  | some queue => factory.topics[queue]?

/-- A new handle of the channel for a consumer. -/
def addConsumer (factory : SharedFactory) (owner : Option String) : SharedFactory :=
  { factory with
    queue := { factory.queue with pending := factory.queue.pending ++ [∅] }
    owners := factory.owners ++ [owner] }

def step (config : QueueConfig) (factory : SharedFactory) : FactoryCall → Option SharedFactory
  | .createQueue topic => some { factory with topics := factory.topics ++ [topic] }
  | .createConsumer queue => factory.topics[queue]?.map fun topic => factory.addConsumer (some topic)
  | .createMainConsumer => some (factory.addConsumer none)
  | .send producer msg =>
    (factory.label msg producer).bind fun topic =>
      (factory.queue.step config (.send ⟨msg, topic⟩)).map fun queue => { factory with queue := queue }
  | .trySend producer msg =>
    (factory.label msg producer).bind fun topic =>
      (factory.queue.step config (.trySend ⟨msg, topic⟩)).map fun queue => { factory with queue := queue }
  | .consume call =>
    call.consumer.bind fun consumer =>
      factory.owners[consumer]?.bind fun owner =>
        (factory.queue.call config call).map fun (reply, queue) =>
          { factory with
            queue := queue
            yielded := factory.yielded ++ reply.messages.map (owner, ·) }

end SharedFactory

end EventBase
