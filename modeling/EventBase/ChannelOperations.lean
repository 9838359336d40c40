import EventBase.MemoryQueue

/-! Producers and consumers of the in-memory backends, interleaved at single operations
on the channels. mpmc and crossfire try to send by asking whether the channel is full
and then sending in the way that waits; mpmc claims a batch by asking for the length
and then receiving in the way that waits. Each consumer has the lock on its claims
for itself. -/

namespace EventBase

/-- The next operation of a call under way. `trying` and `checked` belong to `try_send`,
`polling`, `counting` and `draining` to `claim_batch`; `routing` and `forwarding` are the
look-ups of the routing producer's `try_send` and `send`; `sending` is what `send` and
`nack` wait for, `receiving` what `receive` and `claim` wait for. -/
inductive ChannelPhase where
  | idle
  | trying (channel : Nat) (msg : EMessage)
  | routing (msg : EMessage)
  | checked (channel : Nat) (msg : EMessage)
  | forwarding (msg : EMessage)
  | sending (channel : Nat) (msg : EMessage)
  | receiving (channel : Nat)
  | polling (channel max : Nat)
  | counting (channel max : Nat)
  | draining (channel left : Nat)

/-- `closed` says that the other side of a channel has no handle left, `routes` is the
table of the routing producer. Parties are numbered. -/
structure ChannelNode where
  channels : Nat → List EMessage := fun _ => []
  closed : Nat → Bool := fun _ => false
  routes : Table Nat := ∅
  parties : Nat → ChannelPhase := fun _ => .idle

inductive ChannelCall where
  | send (channel : Nat) (msg : EMessage)
  | trySend (channel : Nat) (msg : EMessage)
  | route (msg : EMessage)
  | tryRoute (msg : EMessage)
  | receive (channel : Nat)
  | claimBatch (channel max : Nat)

inductive ChannelEvent where
  | start (party : Nat) (call : ChannelCall)
  | act (party : Nat)
  | close (channel : Nat)
  | createQueue (topic : String) (channel : Nat)

def ChannelCall.phase : ChannelCall → ChannelPhase
  | .send channel msg => .sending channel msg
  | .trySend channel msg => .trying channel msg
  | .route msg => .forwarding msg
  | .tryRoute msg => .routing msg
  | .receive channel => .receiving channel
  | .claimBatch channel max => .polling channel max

def ChannelCall.isOffered (config : QueueConfig) : ChannelCall → Bool
  | .route _ | .tryRoute _ => config.backend = .crossfire
  | _ => true

namespace ChannelNode

def setPhase (node : ChannelNode) (party : Nat) (phase : ChannelPhase) : ChannelNode :=
  { node with parties := fun other => if other = party then phase else node.parties other }

def setChannel (node : ChannelNode) (channel : Nat) (messages : List EMessage) : ChannelNode :=
  { node with channels := fun other => if other = channel then messages else node.channels other }

section
variable (config : QueueConfig) (node : ChannelNode) (party : Nat)

def isFull (channel : Nat) : Bool := config.isFull (node.channels channel).length

/-- A closed channel answers at once, a full one lets the caller wait. -/
def send (channel : Nat) (msg : EMessage) : Option ChannelNode :=
  if node.closed channel then some (node.setPhase party .idle)
  else if node.isFull config channel then none
  else some ((node.setChannel channel (node.channels channel ++ [msg])).setPhase party .idle)

def trySend (channel : Nat) (msg : EMessage) : ChannelNode :=
  match config.backend with
  | .flume =>
    if node.closed channel || node.isFull config channel then node.setPhase party .idle
    else (node.setChannel channel (node.channels channel ++ [msg])).setPhase party .idle
  | .mpmc | .crossfire =>
    if node.isFull config channel then node.setPhase party .idle else node.setPhase party (.checked channel msg)

/-- `next` is where the call goes on with a message. -/
def receive (channel : Nat) (next : ChannelPhase) : Option ChannelNode :=
  match node.channels channel with
  | _ :: rest => some ((node.setChannel channel rest).setPhase party next)
  | [] => if node.closed channel then some (node.setPhase party .idle) else none

def tryReceive (channel : Nat) (next : ChannelPhase) : ChannelNode :=
  match node.channels channel with
  | _ :: rest => (node.setChannel channel rest).setPhase party next
  | [] => node.setPhase party .idle

/-- Only mpmc asks whether there is something. -/
def poll (channel max : Nat) : ChannelNode :=
  match config.backend with
  | .mpmc =>
    if max = 0 || (node.channels channel).isEmpty then node.setPhase party .idle else node.setPhase party (.counting channel max)
  | .flume | .crossfire => if max = 0 then node.setPhase party .idle else node.setPhase party (.draining channel max)

def drain (channel : Nat) : Nat → Option ChannelNode
  | 0 => some (node.setPhase party .idle)
  | left + 1 =>
    match config.backend with
    | .mpmc => node.receive party channel (.draining channel left)
    | .flume | .crossfire => some (node.tryReceive party channel (.draining channel left))

/-- The next operation of a party; one that would wait is not a step. -/
def act : Option ChannelNode :=
  match node.parties party with
  | .idle => none
  | .trying channel msg => some (node.trySend config party channel msg)
  | .routing msg =>
    match node.routes.lookup msg.topic with
    | some channel =>
      if node.isFull config channel then some (node.setPhase party .idle)
      else some (node.setPhase party (.checked channel msg))
    | none => some (node.setPhase party .idle)
  | .checked channel msg | .sending channel msg => node.send config party channel msg
  | .forwarding msg =>
    match node.routes.lookup msg.topic with
    | some channel => some (node.setPhase party (.sending channel msg))
    | none => some (node.setPhase party .idle)
  | .receiving channel => node.receive party channel .idle
  | .polling channel max => some (node.poll config party channel max)
  | .counting channel max => some (node.setPhase party (.draining channel (min max (node.channels channel).length)))
  | .draining channel left => node.drain config party channel left

end

def step (config : QueueConfig) (node : ChannelNode) : ChannelEvent → Option ChannelNode
  | .start party call =>
    match node.parties party with
    | .idle => if call.isOffered config then some (node.setPhase party call.phase) else none
    | _ => none
  | .act party => node.act config party
  | .close channel => some { node with closed := fun other => if other = channel then true else node.closed other }
  | .createQueue topic channel => some { node with routes := node.routes.insert topic channel }

end ChannelNode

end EventBase
