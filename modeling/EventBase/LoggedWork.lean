import EventBase.RecordLifecycle

/-! Messages are appended to a durable WAL and then sent; workers take up the copies, the
delay scheduler sends what was put off, and the workers' reports are applied as they are
emitted. A replay afterwards sends what the WAL calls pending. -/

namespace EventBase

/-- The report of a worker reaches a file-backed or a Redis WAL. An unknown id is only logged. -/
def DelayStore.sync (sync : WalSyncMessage) : DelayStore → DelayStore
  | .inProcess store => .inProcess (PersistentWal.apply store (.updateState sync.messageId sync.status))
  | .redis store => .redis (store.apply (.updateState sync.messageId sync.status))

/-- The message in the hands of the producer or the delay store. -/
def Effect.handed : Effect → Option EMessage
  | .publish message | .requeue message => some message
  | .schedule record => some record.message
  | .audit _ | .walSync _ => none

/-- The handler acknowledged the last delivery of the message. -/
def Worker.acknowledges (worker : Worker) (run : PipelineRun) : Bool :=
  match worker.status run, run.message.deliveryMode with
  | .ack, .repeated times => times = run.message.consumedCount + 1
  | .ack, .standard | .ack, .broadcast => true
  | .noAck _ _, _ | .dead _, _ => false

def Effect.reportsProcessing : Effect → Bool
  | .walSync sync => sync.status = .processing
  | .audit _ | .publish _ | .requeue _ | .schedule _ => false

/-- The call has acknowledged the message, dead-lettered it or passed it on for its next
delivery. A call that fails after its pipeline, which runs once `Processing` is reported, can
still have been acknowledged. -/
def Worker.concludes (worker : Worker) (run : PipelineRun) (outcome : List Effect × Except CoreError Unit) : Bool :=
  if isSystemTopic worker.topic then worker.status run = .ack
  else outcome.2.isOk || outcome.1.any Effect.reportsProcessing && worker.acknowledges run

namespace LoggedWork

/-- A message in a queue, and whether it was handed out. -/
structure Copy where
  message : EMessage
  delivered : Bool := false

/-- The message a call is about, what the call has still to do, and whether it gets its
message settled. -/
structure Call where
  message : EMessage
  effects : List Effect
  concludes : Bool

/-- `fetched` is what the scheduler has taken from the delay store and not sent. -/
structure State where
  wal : DelayStore
  logged : List EMessage := []
  queue : List Copy := []
  fetched : List WalRecord := []
  calls : List Call := []

/-- The dispatcher may readdress a copy, and relays count as attempts. -/
inductive Event where
  | submit (message : EMessage) (env : Env) (trySend : Option Bool) (timeout : Option Duration)
  | take (copy : Nat) (toWorker : Option String) (attempts : UInt32) (worker : Worker) (env : Env) (run : PipelineRun)
  | fetch (now : SystemTime)
  | deliver (record : WalRecord) (env : Env)
  | emit (call : Nat)

def apply (state : State) : Effect → State
  | .walSync sync => { state with wal := state.wal.sync sync }
  | .publish message | .requeue message => { state with queue := state.queue ++ [{ message }] }
  | .schedule record => { state with wal := state.wal.schedule record }
  | .audit _ => state

/-- The ids are UUIDs: `width` characters, and never the same twice. A queue may hand out a
copy more than once. -/
def step (width : Nat) (state : State) : Event → Option State
  | .submit message env trySend timeout =>
    if message.id.length = width ∧ ∀ other ∈ state.logged, other.id ≠ message.id then
      let outcome := (TopicRouter.send env message.topic message trySend timeout).outcome
      some { state with
        wal := state.wal.append (WalRecord.fromMsg message)
        logged := state.logged ++ [message]
        calls := state.calls ++ [⟨message, outcome.1, outcome.2.isOk⟩] }
    else none
  | .take index toWorker attempts worker env run =>
    match state.queue[index]? with
    | none => none
    | some copy =>
      if worker.topic = copy.message.topic then
        let msg := { copy.message with toWorker, attempts }
        let outcome := (worker.processMsg env run msg).outcome
        some { state with
          queue := state.queue.set index { copy with delivered := true }
          calls := state.calls ++ [⟨msg, outcome.1, worker.concludes run outcome⟩] }
      else none
  | .fetch now =>
    some { state with
      wal := (state.wal.fetchReady now).2
      fetched := state.fetched ++ (state.wal.fetchReady now).1 }
  | .deliver record env =>
    if record ∈ state.fetched then
      let sent := TopicRouter.send env record.message.topic { record.message with deliverAt := none } none none
      some { state with
        fetched := state.fetched.erase record
        calls := state.calls ++ [⟨record.message, (deliverDelayed env record).outcome.1, sent.outcome.2.isOk⟩] }
    else none
  | .emit index =>
    match state.calls[index]? with
    | some ⟨message, effect :: rest, concludes⟩ =>
      some { apply state effect with calls := state.calls.set index ⟨message, rest, concludes⟩ }
    | _ => none

/-- The message itself, or what a broadcast of it is delivered as. -/
def CopyOf (message other : EMessage) : Prop :=
  other.topic = message.topic ∧ (other.id = message.id ∨ (message.id ++ "-").toList <+: other.id.toList)

instance (message other : EMessage) : Decidable (CopyOf message other) := inferInstanceAs (Decidable (_ ∧ _))

/-- Every copy of the message was delivered, and every delivery was acknowledged, dead-lettered
or passed on. -/
def Finished (state : State) (message : EMessage) : Prop :=
  (∀ copy ∈ state.queue, CopyOf message copy.message → copy.delivered = true) ∧
    (∀ record ∈ Table.values state.wal.delays, ¬ CopyOf message record.message) ∧
    (∀ record ∈ state.fetched, ¬ CopyOf message record.message) ∧
    ∀ call ∈ state.calls, CopyOf message call.message → call.effects = [] ∧ call.concludes = true

instance (state : State) (message : EMessage) : Decidable (Finished state message) := inferInstanceAs (Decidable (_ ∧ _))

/-- `TopicRouter::replay(None)` hands out a copy of the message. -/
def Repeats (env : Env) (wal : DelayStore) (message : EMessage) : Prop :=
  ∃ effect ∈ (TopicRouter.replay env none wal).outcome.1, ∃ other ∈ effect.handed, CopyOf message other

instance (env : Env) (wal : DelayStore) (message : EMessage) : Decidable (Repeats env wal message) :=
  inferInstanceAs (Decidable (∃ effect ∈ _, ∃ other ∈ _, _))

end LoggedWork

end EventBase
