import EventBase.Wal

/-! The per-topic dispatch loop of `ConsumerRouter::spawn_topic_dispatcher`. A
sender handle is represented by the number of the channel it writes to, so that
two workers of one name can be told apart. -/

namespace EventBase

structure CachedWorker where
  name : String
  channel : Nat
  deriving DecidableEq, Repr

/-- A bare target may name a worker of this node. -/
def resolves (node : Option String) (target name : String) : Bool :=
  name == target || node.any (fun node => name == node ++ "@" ++ target)

/-- What the loop does with a claimed message once its cache is current. -/
inductive Plan where
  | requeue
  | deliver (worker : CachedWorker) (message : EMessage)
  | expire
  | relay (message : EMessage)
  deriving DecidableEq, Repr

namespace Dispatcher

def localMatch (node : Option String) (cached : List CachedWorker) (toWorker : Option String) : Option CachedWorker :=
  toWorker.bind fun target => cached.find? (fun worker => resolves node target worker.name)

/-- The branch taken for a message and the cursor afterwards. -/
def plan (node : Option String) (cached : List CachedWorker) (cursor : Nat) (msg : EMessage) : Plan × Nat :=
  match cached with
  | [] => (.requeue, cursor)
  | first :: rest =>
    match localMatch node (first :: rest) msg.toWorker with
    | some worker => (.deliver worker { msg with toWorker := some worker.name }, cursor)
    | none =>
      if msg.toWorker.isSome then
        if maxTargetedHops ≤ msg.attempts then (.expire, cursor)
        else (.relay { msg with attempts := msg.attempts + 1 }, cursor)
      else
        let worker := (first :: rest).get ⟨cursor % (rest.length + 1), Nat.mod_lt _ (Nat.succ_pos _)⟩
        (.deliver worker { msg with toWorker := some worker.name }, (cursor + 1) % 2 ^ 64)

end Dispatcher

/-- The variables of the loop. `seenGeneration` is `none` while it holds
`u64::MAX`, a value the generation counter does not reach. -/
structure Dispatcher where
  cursor : Nat := 0
  seenGeneration : Option Nat := none
  cached : List CachedWorker := []
  reclaimed : List (EMessage × String) := []
  deriving DecidableEq

/-- The shared maps the loop reads: `dispatch_workers` for its topic,
`local_inboxes` and `dispatch_generation`. -/
structure WorkerMaps where
  names : List String
  inboxes : Table Nat
  generation : Nat
  deriving DecidableEq

def Dispatcher.cacheOf (names : List String) (inboxes : Table Nat) : List CachedWorker :=
  names.filterMap fun name => (inboxes.lookup name).map (CachedWorker.mk name)

def Dispatcher.isStale (dispatcher : Dispatcher) (generation : Nat) : Bool :=
  decide (dispatcher.seenGeneration ≠ some generation) || dispatcher.cached.isEmpty

def Dispatcher.setCache (dispatcher : Dispatcher) (generation : Nat) (cached : List CachedWorker) : Dispatcher :=
  { dispatcher with
    cached := cached
    seenGeneration := some generation
    cursor := if cached.isEmpty then dispatcher.cursor else dispatcher.cursor % cached.length }

def Dispatcher.refresh (dispatcher : Dispatcher) (maps : WorkerMaps) : Dispatcher :=
  if dispatcher.isStale maps.generation then
    dispatcher.setCache maps.generation (cacheOf maps.names maps.inboxes)
  else dispatcher

/-- A topic as one dispatcher sees it: the queue, the claims its consumer has not
acknowledged, and the inboxes by channel. -/
structure TopicState where
  queue : List EMessage
  claims : Table EMessage
  inboxes : Nat → List EMessage

/-- A failed negative acknowledgement may still have put the message back. -/
inductive NackOutcome where
  | requeued
  | requeuedUnreleased
  | failed
  deriving DecidableEq, Repr

/-- How the calls of one iteration end: the result of a stale sweep if one is due
and succeeds, the id under which a claim takes the head of the queue, and the
outcome of each hand-over. -/
structure Answers where
  sweep : List (EMessage × String) := []
  claim : Option String := none
  trySend : Bool := true
  send : Bool := true
  ack : Bool := true
  nack : NackOutcome := .requeued

namespace TopicState

/-- A failed acknowledgement leaves the claim where it is. -/
def acknowledge (topic : TopicState) (answers : Answers) (claimId : String) : TopicState :=
  if answers.ack then { topic with claims := topic.claims.erase claimId } else topic

def negativeAcknowledge (topic : TopicState) (answers : Answers) (claimId : String) : TopicState :=
  match answers.nack, topic.claims.lookup claimId with
  | .requeued, some msg => { topic with queue := topic.queue ++ [msg], claims := topic.claims.erase claimId }
  | .requeuedUnreleased, some msg => { topic with queue := topic.queue ++ [msg] }
  | _, _ => topic

def deliver (topic : TopicState) (channel : Nat) (msg : EMessage) : TopicState :=
  { topic with inboxes := fun other => if other = channel then topic.inboxes other ++ [msg] else topic.inboxes other }

def send (topic : TopicState) (answers : Answers) (msg : EMessage) : TopicState :=
  if answers.send then { topic with queue := topic.queue ++ [msg] } else topic

end TopicState

namespace Dispatcher

/-- The stale sweep, then the next reclaimed entry or a fresh claim. -/
def take (dispatcher : Dispatcher) (topic : TopicState) (answers : Answers) :
    Option (EMessage × String) × Dispatcher × TopicState :=
  let topic := { topic with
    claims := answers.sweep.foldl (fun claims (msg, claimId) => claims.insert claimId msg) topic.claims }
  match dispatcher.reclaimed ++ answers.sweep, answers.claim, topic.queue with
  | entry :: rest, _, _ => (some entry, { dispatcher with reclaimed := rest }, topic)
  | [], some claimId, msg :: rest =>
    (some (msg, claimId), { dispatcher with reclaimed := [] },
      { topic with queue := rest, claims := topic.claims.insert claimId msg })
  | [], _, _ => (none, { dispatcher with reclaimed := [] }, topic)

/-- The rest of the iteration, on the claimed message. -/
def dispatch (node : Option String) (maps : WorkerMaps) (answers : Answers) (dispatcher : Dispatcher)
    (topic : TopicState) (msg : EMessage) (claimId : String) : Dispatcher × TopicState :=
  let dispatcher := dispatcher.refresh maps
  let (plan, cursor) := plan node dispatcher.cached dispatcher.cursor msg
  let dispatcher := { dispatcher with cursor := cursor }
  match plan with
  | .requeue => (dispatcher, topic.negativeAcknowledge answers claimId)
  | .deliver worker msg =>
    if answers.trySend then (dispatcher, (topic.deliver worker.channel msg).acknowledge answers claimId)
    else ({ dispatcher with seenGeneration := none }, topic.negativeAcknowledge answers claimId)
  | .expire => (dispatcher, topic.acknowledge answers claimId)
  | .relay msg => (dispatcher, (topic.acknowledge answers claimId).send answers msg)

def iteration (node : Option String) (maps : WorkerMaps) (answers : Answers) (dispatcher : Dispatcher)
    (topic : TopicState) : Dispatcher × TopicState :=
  match dispatcher.take topic answers with
  | (some (msg, claimId), dispatcher, topic) => dispatcher.dispatch node maps answers topic msg claimId
  | (none, dispatcher, topic) => (dispatcher, topic)

end Dispatcher

end EventBase
