import EventBase.RedisDelays
import EventBase.TopicRouter

/-! One pass of `run_delay_scheduler`: it takes the due records out of the delay
store and then sends them one by one. -/

namespace EventBase

/-- The delay store of a WAL backend. The memory and the file-backed WAL keep theirs in a `WalStore`. -/
inductive DelayStore where
  | inProcess (store : WalStore)
  | redis (store : RedisWal)

namespace DelayStore

def fetchReady (now : SystemTime) : DelayStore → List WalRecord × DelayStore
  | .inProcess store => ((store.fetchReady now).1, .inProcess (store.fetchReady now).2)
  | .redis store => ((store.fetchReady now).1, .redis (store.fetchReady now).2)

def delays : DelayStore → Table WalRecord
  | .inProcess store => store.delays
  | .redis store => store.delays

/-- The record is scheduled under the id and its time has come. -/
def Due (now : SystemTime) (messageId : String) (record : WalRecord) : DelayStore → Prop
  | .inProcess store => store.delays.lookup messageId = some record ∧ record.due now = true
  | .redis store => store.delays.lookup messageId = some record ∧ messageId ∈ store.dueIds now

end DelayStore

/-- The surroundings may change from one record to the next, so each record is
sent in its own. -/
def runDelayScheduler (store : DelayStore) (now : SystemTime) (envs : WalRecord → Env) : List Effect × DelayStore :=
  ((store.fetchReady now).1.flatMap fun record => (deliverDelayed (envs record) record).outcome.1, (store.fetchReady now).2)

end EventBase
