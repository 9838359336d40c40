import Mathlib

/-! The envelope every component passes around, the handler's answer and the
errors of the core crate. Times are nanoseconds from the epoch, durations are
nanoseconds; a hash map is an association list without duplicate keys. -/

namespace EventBase

abbrev SystemTime := Int
abbrev Duration := Nat

/-- The first instant a `SystemTime` can no longer hold: its seconds are an `i64`. -/
def SystemTime.limit : Int := 2 ^ 63 * 1000000000

def SystemTime.checkedAdd (time : SystemTime) (delay : Duration) : Option SystemTime :=
  if time + delay < SystemTime.limit then some (time + delay) else none

inductive NodeType where
  | host
  | worker
  deriving DecidableEq, Repr

inductive DeliveryMode where
  | standard
  | repeated (times : UInt32)
  | broadcast
  deriving DecidableEq, Repr

structure MessageMetadata where
  createdAt : SystemTime
  traceId : Option String := none
  correlationId : Option String := none
  causationId : Option String := none
  source : Option String := none
  deriving DecidableEq, Repr

structure EMessage where
  id : String
  topic : String
  payload : List UInt8
  metadata : MessageMetadata
  attempts : UInt32
  deliveryMode : DeliveryMode
  consumedCount : UInt32
  deliverAt : Option SystemTime
  toWorker : Option String
  version : UInt32
  deriving DecidableEq, Repr

def currentSchemaVersion : UInt32 := 0

/-- The generated UUID and the clock reading are arguments. -/
def EMessage.new (id : String) (now : SystemTime) (topic : String) (payload : List UInt8)
    (deliveryMode : DeliveryMode) (toWorker : Option String) : EMessage where
  id := id
  topic := topic
  payload := payload
  metadata := { createdAt := now }
  attempts := 0
  deliveryMode := deliveryMode
  consumedCount := 0
  deliverAt := none
  toWorker := toWorker
  version := currentSchemaVersion

inductive DeadReason where
  | maxRetriesExceeded
  | explicit
  | timeout
  | noHandler
  | other (detail : String)
  deriving DecidableEq, Repr

def DeadReason.toText : DeadReason → String
  | .maxRetriesExceeded => "Max Retries exceeded"
  | .explicit => "Handler Explicit"
  | .timeout => "Handler Timeout"
  | .noHandler => "NoHandler"
  | .other detail => "Handler Other Error: " ++ detail

inductive Ack where
  | ack
  | noAck (retryAfter : Option Duration) (maxRetries : UInt32)
  | dead (deadReason : DeadReason)
  deriving DecidableEq, Repr

inductive QueueError where
  | full
  | closed
  | timeout
  | send (detail : String)
  | invalidClaimId (claimId : String)
  | receive (detail : String)
  deriving DecidableEq, Repr

inductive WalError where
  | recordNotFound (messageId : String)
  | corrupted (detail : String)
  | backend (detail : String)
  | write (detail : String)
  deriving DecidableEq, Repr

inductive TopicError where
  | alreadyExists (topic : String)
  | notFound (topic : String)
  deriving DecidableEq, Repr

/-- The variants of the core error that modelled code constructs. -/
inductive CoreError where
  | queue (error : QueueError)
  | wal (error : WalError)
  | topic (error : TopicError)
  | serialize (detail : String)
  | alreadyInitialized
  | processTimeError
  | workerNotFound (worker : String)
  | unsupported (detail : String)
  | other (detail : String)
  deriving DecidableEq, Repr

/-- `finish.duration_since(start)?`: a clock that stepped back is an error. -/
def durationSince (later earlier : SystemTime) : Except CoreError Duration :=
  if earlier ≤ later then .ok (later - earlier).toNat else .error .processTimeError

structure WorkerInfo where
  workerName : String
  topic : String
  lastHeartbeat : SystemTime
  deriving DecidableEq, Repr

def systemTopicAudit : String := "_system.audit"
def systemTopicWalSync : String := "_system.wal_sync"

def isSystemTopic (topic : String) : Bool := "_system.".toList.isPrefixOf topic.toList

/-- Hard cap on relays of a targeted message. -/
def maxTargetedHops : UInt32 := 64

end EventBase
