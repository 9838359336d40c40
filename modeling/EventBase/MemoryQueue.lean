import EventBase.Wal

/-! The in-memory queues. All handles of one queue share a FIFO channel, and each
consumer keeps a map of the claims it has not acknowledged. The backends differ in
how they try to send and in how they claim a batch. -/

namespace EventBase

inductive QueueBackend where
  | flume
  | mpmc
  | crossfire
  deriving DecidableEq, Repr

/-- `uuid` and `clock` answer the n-th claim, `closedText` is the channel's own
text for a send that fails. A bounded channel holds at least one message. -/
structure QueueConfig where
  backend : QueueBackend
  capacity : Nat
  uuid : Nat → String
  clock : Nat → SystemTime
  closedText : String
  bounded : backend ≠ .flume → 0 < capacity

structure ClaimedMessage (α : Type) where
  message : α
  claimId : String
  claimedAt : SystemTime

/-- `pending` holds the map of each consumer and `claims` counts the claims made.
The channel is disconnected once the other side has no handle left. `sent`,
`received` and `acked` record what calls accepted, returned and acknowledged. -/
structure MemoryQueue (α : Type) where
  channel : List α := []
  disconnected : Bool := false
  pending : List (Table α) := []
  claims : Nat := 0
  sent : List α := []
  received : List α := []
  acked : List α := []

/-- Calls on the queue's handles; consumers are numbered in the order of creation. -/
inductive QueueCall (α : Type) where
  | createConsumer
  | send (msg : α)
  | trySend (msg : α)
  | receive (consumer : Nat)
  | claim (consumer : Nat)
  | claimBatch (consumer max : Nat)
  | ack (consumer : Nat) (claimId : String)
  | nack (consumer : Nat) (claimId : String)

inductive QueueReply (α : Type) where
  | created (consumer : Nat)
  | result (outcome : Except CoreError Unit)
  | received (msg : Option α)
  | claimed (claim : Option (ClaimedMessage α))
  | batch (claims : List (ClaimedMessage α))

/-- Why a reservation of memory ends the call. -/
inductive ReserveError where
  | capacityOverflow
  | allocError
  deriving DecidableEq, Repr

/-- Flume takes a capacity of zero for no bound. -/
def QueueConfig.isFull (config : QueueConfig) (length : Nat) : Bool :=
  match config.backend with
  | .flume => decide (0 < config.capacity) && decide (config.capacity ≤ length)
  | .mpmc | .crossfire => decide (config.capacity ≤ length)

namespace MemoryQueue
variable {α : Type} (config : QueueConfig) (queue : MemoryQueue α)

def accept (msg : α) : MemoryQueue α :=
  { queue with channel := queue.channel ++ [msg], sent := queue.sent ++ [msg] }

/-- A full channel blocks the caller. -/
def send (msg : α) : Option (Except CoreError Unit × MemoryQueue α) :=
  if queue.disconnected then some (.error (.queue (.send config.closedText)), queue)
  else if config.isFull queue.channel.length then none
  else some (.ok (), queue.accept msg)

/-- Flume calls a closed channel full, too. The others look whether the channel is
full and then send. -/
def trySend (msg : α) : Option (Except CoreError Unit × MemoryQueue α) :=
  match config.backend with
  | .flume =>
    if queue.disconnected || config.isFull queue.channel.length then some (.error (.queue .full), queue)
    else some (.ok (), queue.accept msg)
  | .mpmc | .crossfire =>
    if config.isFull queue.channel.length then some (.error (.queue .full), queue) else queue.send config msg

/-- An empty channel blocks the caller unless no message can come any more. -/
def receive : Option (Option α × MemoryQueue α) :=
  match queue.channel with
  | msg :: rest => some (some msg, { queue with channel := rest, received := queue.received ++ [msg] })
  | [] => if queue.disconnected then some (none, queue) else none

/-- A message moves from the channel to the claims of one consumer. -/
def take (consumer : Nat) (table : Table α) (msg : α) (rest : List α) : ClaimedMessage α × MemoryQueue α :=
  (⟨msg, config.uuid queue.claims, config.clock queue.claims⟩,
    { queue with
      channel := rest
      pending := queue.pending.set consumer (table.insert (config.uuid queue.claims) msg)
      claims := queue.claims + 1 })

def claim (consumer : Nat) (table : Table α) : Option (Option (ClaimedMessage α) × MemoryQueue α) :=
  match queue.channel with
  | msg :: rest => some ((queue.take config consumer table msg rest).map some id)
  | [] => if queue.disconnected then some (none, queue) else none

/-- The loop of `claim_batch`; it ends early when the channel has nothing more. -/
def claimUpTo (queue : MemoryQueue α) (consumer : Nat) : Nat → List (ClaimedMessage α) × MemoryQueue α
  | 0 => ([], queue)
  | limit + 1 =>
    match queue.pending[consumer]?, queue.channel with
    | some table, msg :: rest =>
      let (claimed, queue) := queue.take config consumer table msg rest
      let (claims, queue) := claimUpTo queue consumer limit
      (claimed :: claims, queue)
    | _, _ => ([], queue)

/-- Only mpmc asks for the number of messages first. -/
def claimBatch (consumer max : Nat) : List (ClaimedMessage α) × MemoryQueue α :=
  match config.backend with
  | .mpmc =>
    if max = 0 || queue.channel.isEmpty then ([], queue)
    else claimUpTo config queue consumer (min max queue.channel.length)
  | .flume | .crossfire => if max = 0 then ([], queue) else claimUpTo config queue consumer max

/-- The slots `claim_batch` reserves for its answer; none when it returns at once. -/
def reserved (max : Nat) : Nat :=
  match config.backend with
  | .mpmc => min max queue.channel.length
  | .flume | .crossfire => max

/-- `Vec::with_capacity` panics past `isize::MAX` bytes and aborts the process if the
allocator does not serve the request; for no bytes it asks for nothing. -/
def reserve (allocates : Nat → Bool) (bytes : Nat) : Except ReserveError Unit :=
  if 2 ^ 63 ≤ bytes then .error .capacityOverflow
  else if bytes = 0 || allocates bytes then .ok () else .error .allocError

/-- With its allocation, for claims of `size` bytes. -/
def claimBatchReserving (allocates : Nat → Bool) (size consumer max : Nat) :
    Except ReserveError (List (ClaimedMessage α) × MemoryQueue α) :=
  (reserve allocates (queue.reserved config max * size)).map fun _ => queue.claimBatch config consumer max

/-- An unknown claim id is acknowledged without effect. -/
def ack (consumer : Nat) (table : Table α) (claimId : String) : MemoryQueue α :=
  { queue with
    pending := queue.pending.set consumer (table.erase claimId)
    acked := queue.acked ++ (table.lookup claimId).toList }

/-- The message is sent again before its claim is forgotten. -/
def nack (consumer : Nat) (table : Table α) (claimId : String) : Option (Except CoreError Unit × MemoryQueue α) :=
  match table.lookup claimId with
  | some msg =>
    if queue.disconnected then some (.error (.queue (.send config.closedText)), queue)
    else if config.isFull queue.channel.length then none
    else some (.ok (), { queue with
      channel := queue.channel ++ [msg], pending := queue.pending.set consumer (table.erase claimId) })
  | none => some (.error (.queue (.invalidClaimId claimId)), queue)

/-- One call run to its end. A call that would block, or one on a consumer that
does not exist, is not a step. -/
def call : QueueCall α → Option (QueueReply α × MemoryQueue α)
  | .createConsumer => some (.created queue.pending.length, { queue with pending := queue.pending ++ [∅] })
  | .send msg => (queue.send config msg).map (Prod.map .result id)
  | .trySend msg => (queue.trySend config msg).map (Prod.map .result id)
  | .receive consumer =>
    if consumer < queue.pending.length then queue.receive.map (Prod.map .received id) else none
  | .claim consumer =>
    queue.pending[consumer]?.bind fun table => (queue.claim config consumer table).map (Prod.map .claimed id)
  | .claimBatch consumer max =>
    if consumer < queue.pending.length then some ((queue.claimBatch config consumer max).map .batch id) else none
  | .ack consumer claimId =>
    queue.pending[consumer]?.map fun table => (.result (.ok ()), queue.ack consumer table claimId)
  | .nack consumer claimId =>
    queue.pending[consumer]?.bind fun table => (queue.nack config consumer table claimId).map (Prod.map .result id)

def step (call : QueueCall α) : Option (MemoryQueue α) := (queue.call config call).map Prod.snd

end MemoryQueue

end EventBase
