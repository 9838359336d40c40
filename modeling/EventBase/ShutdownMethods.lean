import EventBase.ConsumerRouter

/-! The shutdown strategies that remove every worker, as `ShutdownHandler` runs them on one of
those workers. `del_worker` aborts the task of the worker it removes; an aborted task may go no
further than its next await that is not ready at once. -/

namespace EventBase

inductive ShutdownStrategy where
  | twoStage
  | timeout
  | force
  | batched (batchSize : Nat)
  deriving DecidableEq, Repr

/-- What ends the command early: the abort of its own task, a panic, or the error of a `?`. -/
inductive ShutdownEnd where
  | stopped
  | panicked
  | failed (error : CoreError)
  deriving DecidableEq, Repr

/-- `self` is the worker whose task runs the command. `arrange` is the order in which the worker
map is iterated, `acks n` the answer to the n-th acknowledgement, `complete n` which of the other
workers have left their loop at the n-th poll, and `polls` how often the time allows to poll. -/
structure ShutdownEnv where
  self : String
  arrange : List Worker → List Worker
  arranged : ∀ workers, (arrange workers).Perm workers
  acks : Nat → Option CoreError := fun _ => none
  complete : Nat → String → Bool := fun _ _ => false
  polls : Nat := 0

structure ShutdownState where
  router : ConsumerRouter
  aborted : Bool := false
  awaits : Nat := 0
  acks : Nat := 0

abbrev ShutdownM := EStateM ShutdownEnd ShutdownState

namespace Shutdown
variable (env : ShutdownEnv) (stops : Nat → Bool)

/-- `stops n` says that the n-th await is not ready at once and that the task, if it is
aborted, ends there. -/
def await : ShutdownM Unit := do
  let state ← get
  set { state with awaits := state.awaits + 1 }
  if state.aborted && stops state.awaits then throw .stopped

def update (change : ConsumerRouter → ConsumerRouter) : ShutdownM Unit :=
  modify fun state => { state with router := change state.router }

/-- `Worker::shutdown` with a timeout of zero: it waits for the status, then sends the acknowledgement. -/
def workerShutdown : ShutdownM (Option CoreError) := do
  await stops
  await stops
  let state ← get
  set { state with acks := state.acks + 1 }
  return env.acks state.acks

/-- The write guard, then `del_worker`. The answer is ignored by all callers. -/
def delWorker (name : String) : ShutdownM Unit := do
  await stops
  await stops
  let state ← get
  if name ∈ state.router.workerIndex then
    update (·.unindexWorker name)
    modify fun state => { state with aborted := state.aborted || name = env.self }
    await stops
    update (·.detachInbox name)
    await stops
    update (·.unlistWorker name)
    await stops
    update (·.unpublishWorker name)
    update (·.bumpGeneration)

/-- One turn of the removal loops. Only the two-stage strategy gives up on a failed acknowledgement. -/
def removeWorker (strict : Bool) (worker : Worker) : ShutdownM Unit := do
  match ← workerShutdown env stops with
  | some error => if strict then throw (.failed error)
  | none => pure ()
  delWorker env stops worker.name

def getAllWorkers : ShutdownM (List Worker) := do
  await stops
  await stops
  return env.arrange (← get).router.getAllWorkers

def shutdownForce : ShutdownM Unit := do
  (← getAllWorkers env stops).forM (removeWorker env stops false)

def shutdownTimeout : ShutdownM Unit := do
  await stops
  shutdownForce env stops

/-- `chunks` panics on zero. -/
def shutdownBatched (batchSize : Nat) : ShutdownM Unit := do
  let workers ← getAllWorkers env stops
  if batchSize = 0 then throw .panicked
  (workers.toChunks batchSize).forM fun chunk => do
    chunk.forM (removeWorker env stops false)
    await stops

/-- The executing worker is inside its loop, so its own flag is not set. -/
def isShutdownComplete (poll : Nat) (worker : Worker) : Bool :=
  worker.name ≠ env.self && env.complete poll worker.name

/-- The polls that the time allows, then the forced removal. -/
def twoStageFrom : Nat → ShutdownM Unit
  | 0 => do (← getAllWorkers env stops).forM (removeWorker env stops true)
  | left + 1 => do
    let workers ← getAllWorkers env stops
    if workers.isEmpty then return
    if workers.all (isShutdownComplete env (env.polls - (left + 1))) then
      workers.forM fun worker => delWorker env stops worker.name
    else
      await stops
      twoStageFrom left

/-- `shutdown_all_workers_two_stage` -/
def shutdownTwoStage : ShutdownM Unit := twoStageFrom env stops env.polls

/-- `ShutdownHandler::handler` for these strategies. -/
def handler : ShutdownStrategy → ShutdownM Unit
  | .twoStage => shutdownTwoStage env stops
  | .timeout => shutdownTimeout env stops
  | .force => shutdownForce env stops
  | .batched batchSize => shutdownBatched env stops batchSize

/-- The router once the command is over, however it ended. -/
def leaves (router : ConsumerRouter) (strategy : ShutdownStrategy) : ConsumerRouter :=
  match handler env stops strategy { router } with
  | .ok _ state | .error _ state => state.router

end Shutdown

end EventBase
