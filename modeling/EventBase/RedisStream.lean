import EventBase.Foundations.ConsumerGroup
import EventBase.Foundations.Run
import EventBase.Wal

/-! The consumers of one topic stream in Redis, interleaved at single commands.
Streams are not trimmed and every stored message decodes. A command that fails
with its effect is the command followed by `fail`, one that fails without it is
`fail`. -/

namespace EventBase
open Foundations

/-- An entry without a message field was written by another program. `parent` is
the entry a `nack` copied. -/
structure StreamEntry where
  payload : Option EMessage
  parent : Option Nat
  deriving DecidableEq

inductive StreamRead where
  | fresh (count : Nat)
  | stale
  deriving DecidableEq

/-- Where a consumer stands, named after the command it issues next. -/
inductive StreamPhase where
  | idle
  /-- `XGROUP CREATE` -/
  | creating (read : StreamRead)
  /-- `XREADGROUP` -/
  | reading (count : Nat)
  /-- `XAUTOCLAIM` -/
  | autoclaiming
  /-- `XACK` of the next foreign entry, or return the messages. -/
  | receiving (foreign : List Nat) (messages : List (Nat × EMessage))
  /-- `XACK` -/
  | acking (entry : Nat)
  /-- `XADD` -/
  | adding (entry : Nat) (message : EMessage)
  /-- `XACK` -/
  | releasing (entry : Nat)
  deriving DecidableEq

structure StreamConsumer where
  pending : Table (Nat × EMessage)
  groupReady : Bool
  phase : StreamPhase

def StreamConsumer.new : StreamConsumer := ⟨∅, false, .idle⟩

/-- `acked` lists the entries on whose claims a client called `ack`. -/
structure StreamQueue where
  stream : Stream StreamEntry
  consumers : List StreamConsumer
  acked : List Nat

inductive StreamEvent where
  | produce (message : EMessage)
  | foreign
  | claimBatch (consumer max : Nat)
  | claimStale (consumer : Nat)
  | ack (consumer : Nat) (claimId : String)
  | nack (consumer : Nat) (claimId : String)
  /-- `idle` names the pending entries that were idle long enough, in case the command is `XAUTOCLAIM`. -/
  | command (consumer : Nat) (idle : List Nat)
  /-- The `XACK` of a foreign entry fails, which is ignored. -/
  | ignore (consumer : Nat)
  | finish (consumer : Nat) (claimIds : List String)
  | fail (consumer : Nat)
  | crash (consumer : Nat)

def readPhase : StreamRead → StreamPhase
  | .fresh count => .reading count
  | .stale => .autoclaiming

def foreignIds (read : List (Nat × StreamEntry)) : List Nat :=
  read.filterMap fun (id, entry) => if entry.payload.isNone then some id else none

def messagesOf (read : List (Nat × StreamEntry)) : List (Nat × EMessage) :=
  read.filterMap fun (id, entry) => entry.payload.map fun message => (id, message)

namespace StreamConsumer

/-- `ensure_group` issues its command once per consumer. -/
def begin (consumer : StreamConsumer) (read : StreamRead) : StreamConsumer :=
  { consumer with phase := if consumer.groupReady then readPhase read else .creating read }

/-- One command that takes effect and is answered. -/
def command (fromEnd : Bool) (idle : List Nat) (stream : Stream StreamEntry) (consumer : StreamConsumer) :
    Option (StreamConsumer × Stream StreamEntry) :=
  match consumer.phase with
  | .creating read =>
    some ({ consumer with groupReady := true, phase := readPhase read }, stream.createGroup fromEnd)
  | .reading count =>
    (stream.readGroup count).map fun (read, after) =>
      ({ consumer with phase := .receiving (foreignIds read) (messagesOf read) }, after)
  | .autoclaiming =>
    if stream.group.isSome ∧ idle.length ≤ 64 ∧ ∀ id ∈ idle, stream.isPending id then
      let claimed := idle.filterMap fun id => (stream.entries[id]?).map fun entry => (id, entry)
      some ({ consumer with phase := .receiving [] (messagesOf claimed) }, stream)
    else none
  | .receiving (id :: foreign) messages => some ({ consumer with phase := .receiving foreign messages }, stream.ack id)
  | .acking entry => some ({ consumer with phase := .idle }, stream.ack entry)
  | .adding entry message =>
    some ({ consumer with phase := .releasing entry }, stream.add ⟨some message, some entry⟩)
  | .releasing entry => some ({ consumer with phase := .idle }, stream.ack entry)
  | .idle | .receiving [] _ => none

/-- Every message becomes a claim under a generated id. -/
def finish (claimIds : List String) (consumer : StreamConsumer) : Option StreamConsumer :=
  match consumer.phase with
  | .receiving [] messages =>
    if claimIds.length = messages.length then
      some { consumer with
        phase := .idle
        pending := (claimIds.zip messages).foldl (fun pending claim => pending.insert claim.1 claim.2) consumer.pending }
    else none
  | _ => none

end StreamConsumer

namespace StreamQueue

def init (consumers : Nat) : StreamQueue := ⟨.empty, List.replicate consumers .new, []⟩

def update (queue : StreamQueue) (index : Nat) (consumer : StreamConsumer) (stream : Stream StreamEntry)
    (acked : List Nat) : StreamQueue :=
  ⟨stream, queue.consumers.set index consumer, queue.acked ++ acked⟩

/-- An unknown claim id is an error that changes nothing, and so is `claim_batch` of no messages. -/
def step (fromEnd : Bool) (queue : StreamQueue) : StreamEvent → Option StreamQueue
  | .produce message => some { queue with stream := queue.stream.add ⟨some message, none⟩ }
  | .foreign => some { queue with stream := queue.stream.add ⟨none, none⟩ }
  | .claimBatch index max => do
    let consumer ← queue.consumers[index]?
    if consumer.phase ≠ .idle then none
    else if max = 0 then return queue
    else return queue.update index (consumer.begin (.fresh max)) queue.stream []
  | .claimStale index => do
    let consumer ← queue.consumers[index]?
    if consumer.phase ≠ .idle then none
    else return queue.update index (consumer.begin .stale) queue.stream []
  | .ack index claimId => do
    let consumer ← queue.consumers[index]?
    if consumer.phase ≠ .idle then none
    else match consumer.pending.lookup claimId with
      | none => return queue
      | some (entry, _) =>
        return queue.update index ⟨consumer.pending.erase claimId, consumer.groupReady, .acking entry⟩ queue.stream [entry]
  | .nack index claimId => do
    let consumer ← queue.consumers[index]?
    if consumer.phase ≠ .idle then none
    else match consumer.pending.lookup claimId with
      | none => return queue
      | some (entry, message) =>
        return queue.update index ⟨consumer.pending.erase claimId, consumer.groupReady, .adding entry message⟩ queue.stream []
  | .command index idle => do
    let consumer ← queue.consumers[index]?
    let (next, stream) ← consumer.command fromEnd idle queue.stream
    return queue.update index next stream []
  | .ignore index => do
    let consumer ← queue.consumers[index]?
    match consumer.phase with
    | .receiving (_ :: foreign) messages =>
      return queue.update index { consumer with phase := .receiving foreign messages } queue.stream []
    | _ => none
  | .finish index claimIds => do
    let consumer ← queue.consumers[index]?
    let next ← consumer.finish claimIds
    return queue.update index next queue.stream []
  | .fail index => do
    let consumer ← queue.consumers[index]?
    return queue.update index { consumer with phase := .idle } queue.stream []
  | .crash index => do
    let _ ← queue.consumers[index]?
    return queue.update index .new queue.stream []

end StreamQueue

end EventBase
