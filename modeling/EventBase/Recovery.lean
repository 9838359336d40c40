import EventBase.Bootstrap
import EventBase.DelayScheduler

/-! Crash recovery: `TopicRouter::replay` sends the pending records again, and the
delay scheduler then drains the delay store. Both read the WAL that appends, status
reports and schedules have left. -/

namespace EventBase

/-- What changes a WAL before the crash. `placeholder` is the message the memory
backend makes up for an unknown id; the router only schedules messages with a time. -/
inductive WalChange where
  | append (record : WalRecord)
  | sync (messageId : String) (status : WalRecordState) (placeholder : EMessage)
  | schedule (message : EMessage) (deliverAt : SystemTime)

namespace DelayStore

def schedule (record : WalRecord) : DelayStore → DelayStore
  | .inProcess store => .inProcess (store.schedule record)
  | .redis store => .redis (store.schedule record)

def replayPending : DelayStore → List WalRecord
  | .inProcess store => store.replayPending
  | .redis store => store.replayPending

def append (record : WalRecord) : DelayStore → DelayStore
  | .inProcess store => .inProcess (store.append record)
  | .redis store => .redis (store.append record)

/-- `backend` tells the two in-process backends apart. -/
def updateState (backend : WalBackend) (messageId : String) (status : WalRecordState) (placeholder : EMessage) :
    DelayStore → DelayStore
  | .inProcess store => .inProcess (backend.updateState store messageId status placeholder)
  | .redis store => .redis (store.apply (.updateState messageId status))

def change (backend : WalBackend) (store : DelayStore) : WalChange → DelayStore
  | .append record => store.append record
  | .sync messageId status placeholder => store.updateState backend messageId status placeholder
  | .schedule message deliverAt => store.schedule (WalRecord.fromMsg { message with deliverAt := some deliverAt })

/-- The WAL states before a crash. -/
inductive Reachable (backend : WalBackend) : DelayStore → Prop
  | inProcess : Reachable backend (.inProcess .empty)
  | redis : Reachable backend (.redis .empty)
  | change {store : DelayStore} (before : Reachable backend store) (change : WalChange) :
    Reachable backend (store.change backend change)

end DelayStore

structure ReplaySummary where
  recovered : Nat := 0
  delayed : Nat := 0
  errors : List (String × CoreError) := []
  deriving DecidableEq

section
variable (env : Env)

def isFuture (msg : EMessage) : TaskM Bool :=
  match msg.deliverAt with
  | some deliverAt => do
    let time ← now env
    return decide (time < deliverAt)
  | none => return false

/-- The loop body of `TopicRouter::replay`. A failed `schedule` ends the replay, a
failed send is noted. -/
def TopicRouter.replayRecord (summary : ReplaySummary) (record : WalRecord) : TaskM ReplaySummary := do
  let msg := record.message
  let future ← isFuture env msg
  if future then
    schedule env (WalRecord.fromMsg msg)
    return { summary with delayed := summary.delayed + 1 }
  else
    let msg := { msg with deliverAt := none }
    tryCatch (do
        TopicRouter.send env msg.topic msg none none
        return { summary with recovered := summary.recovered + 1 })
      (fun error => return { summary with errors := summary.errors ++ [(msg.id, error)] })

/-- `TopicRouter::replay` on the WAL it reads. -/
def TopicRouter.replay (topics : Option (List String)) (store : DelayStore) : TaskM ReplaySummary :=
  if env.walAvailable then
    (store.replayPending.filter (replayable topics)).foldlM (TopicRouter.replayRecord env) {}
  else throw (.unsupported "WAL not available")

end

/-- `pending` is what the replay has not come to, `fetched` what the scheduler has
not sent; `delivered` is what the producer took, with the time. -/
structure Recovery where
  store : DelayStore
  clock : SystemTime
  pending : List WalRecord
  summary : ReplaySummary := {}
  fetched : List WalRecord := []
  delivered : List (EMessage × SystemTime) := []

inductive RecoveryEvent where
  | tick (now : SystemTime)
  | replay (env : Env)
  | fetch
  | deliver (env : Env)

namespace Recovery

def start (topics : Option (List String)) (store : DelayStore) (clock : SystemTime) : Recovery where
  store := store
  clock := clock
  pending := store.replayPending.filter (replayable topics)

def apply (state : Recovery) : List Effect → Recovery
  | [] => state
  | .schedule record :: rest => { state with store := state.store.schedule record }.apply rest
  | .publish message :: rest | .requeue message :: rest =>
    { state with delivered := state.delivered ++ [(message, state.clock)] }.apply rest
  | .audit _ :: rest | .walSync _ :: rest => state.apply rest

def read (state : Recovery) (env : Env) : Env := { env with clock := fun _ => state.clock }

/-- The scheduler starts once the replay has ended, and fetches again once it has
sent what it fetched. -/
def step (state : Recovery) : RecoveryEvent → Option Recovery
  | .tick now => if state.clock ≤ now then some { state with clock := now } else none
  | .replay env =>
    match state.pending with
    | [] => none
    | record :: rest =>
      let (effects, result) := (TopicRouter.replayRecord (state.read env) state.summary record).outcome
      match result with
      | .ok summary => some ({ state with pending := rest, summary }.apply effects)
      | .error _ => some ({ state with pending := [] }.apply effects)
  | .fetch =>
    match state.pending, state.fetched with
    | [], [] =>
      let (ready, store) := state.store.fetchReady state.clock
      some { state with store, fetched := ready }
    | _, _ => none
  | .deliver env =>
    match state.fetched with
    | [] => none
    | record :: rest => some ({ state with fetched := rest }.apply (deliverDelayed (state.read env) record).outcome.1)

end Recovery

end EventBase
