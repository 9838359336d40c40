import EventBase.Recovery
import EventBase.Worker

/-! Workers report what becomes of the messages they take up, and the reports are
applied to the WAL in the order in which they are emitted. Letters travel on under the
id of the message that failed. -/

namespace EventBase

def WalRecordState.isTerminal : WalRecordState → Bool
  | .complete | .failed => true
  | .pending | .processing => false

def DelayStore.records : DelayStore → Table WalRecord
  | .inProcess store => store.records
  | .redis store => store.records

def DelayStore.status (messageId : String) (store : DelayStore) : Option WalRecordState :=
  (store.records.lookup messageId).map WalRecord.status

/-- `sent` is what queues hold or held, `delayed` what was scheduled; a task is what
a running call has still to do. -/
structure Lifecycle where
  wal : DelayStore
  sent : List EMessage
  delayed : List WalRecord := []
  tasks : List (List Effect) := []

/-- `placeholder` is the message the memory backend makes up for an unknown id. -/
inductive LifecycleEvent where
  | take (worker : Worker) (msg : EMessage) (env : Env) (run : PipelineRun)
  | fire (record : WalRecord) (env : Env)
  | emit (task : Nat) (placeholder : EMessage)

namespace Lifecycle

def apply (backend : WalBackend) (placeholder : EMessage) (state : Lifecycle) : Effect → Lifecycle
  | .walSync sync => { state with wal := state.wal.updateState backend sync.messageId sync.status placeholder }
  | .publish message | .requeue message => { state with sent := message :: state.sent }
  | .schedule record => { state with delayed := record :: state.delayed }
  | .audit _ => state

/-- A queue may hand out a message more than once, and the dispatcher may have
readdressed it. -/
def step (backend : WalBackend) (state : Lifecycle) : LifecycleEvent → Option Lifecycle
  | .take worker msg env run =>
    if ∃ sent ∈ state.sent, sent.id = msg.id ∧ sent.topic = msg.topic then
      some { state with tasks := state.tasks ++ [(worker.processMsg env run msg).outcome.1] }
    else none
  | .fire record env =>
    if record ∈ state.delayed then
      some { state with tasks := state.tasks ++ [(deliverDelayed env record).outcome.1] }
    else none
  | .emit index placeholder =>
    match state.tasks[index]? with
    | some (effect :: rest) => some { state.apply backend placeholder effect with tasks := state.tasks.set index rest }
    | _ => none

end Lifecycle

end EventBase
