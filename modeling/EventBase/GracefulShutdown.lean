import EventBase.Foundations.Run

/-! `graceful_shutdown` and `shutdown_idle_only` against one worker's loop. The status is read in
one step, `Worker::shutdown` with a timeout of zero follows in others, and `del_worker` aborts the
worker's task in the last; the worker's loop runs in between. -/

namespace EventBase.GracefulShutdown

inductive WorkerStatus where
  | idle
  | working
  deriving DecidableEq, Repr

/-- Where the loop of `Worker::start` is: in its `select!`, with a message received, with the status
set, inside the pipeline, past it; or on its way out after a notification. -/
inductive LoopPhase where
  | waiting
  | received
  | working
  | running
  | finished
  | leaving
  | exited
  | aborted
  deriving DecidableEq, Repr

/-- A worker sets `Working` only after it has received, and `Idle` after `process_msg`. -/
def LoopPhase.status : LoopPhase → WorkerStatus
  | .working | .running | .finished => .working
  | .waiting | .received | .leaving | .exited | .aborted => .idle

/-- `notifying`, `polling` and `acknowledging` are the steps of `Worker::shutdown`. -/
inductive CallerPhase where
  | checking
  | sleeping
  | notifying
  | polling
  | acknowledging
  | deleting
  | done
  deriving DecidableEq, Repr

inductive Method where
  | gracefulShutdown
  | shutdownIdleOnly
  deriving DecidableEq, Repr

/-- `inbox` counts the messages that wait, `interrupted` records an abort inside the pipeline. -/
structure State where
  phase : LoopPhase := .waiting
  inbox : Nat := 0
  notified : Bool := false
  caller : CallerPhase := .checking
  interrupted : Bool := false
  deriving DecidableEq, Repr

inductive Event where
  | arrive
  | receive
  | notice
  | setWorking
  | runPipeline
  /-- A misrouted message is put back, or `process_msg` fails before its pipeline. -/
  | skip
  | finish
  | setIdle
  | exit
  | check
  | sleep
  | notify
  | poll (timeUp : Bool)
  | acknowledge (sent : Bool)
  | delete
  deriving DecidableEq, Repr

def step (method : Method) (state : State) : Event → Option State
  | .arrive => some { state with inbox := state.inbox + 1 }
  | .receive =>
    match state.phase, state.inbox with
    | .waiting, inbox + 1 => some { state with phase := .received, inbox := inbox }
    | _, _ => none
  | .notice =>
    match state.phase, state.notified with
    | .waiting, true => some { state with phase := .leaving, notified := false }
    | _, _ => none
  | .setWorking => if state.phase = .received then some { state with phase := .working } else none
  | .runPipeline => if state.phase = .working then some { state with phase := .running } else none
  | .skip => if state.phase = .working then some { state with phase := .finished } else none
  | .finish => if state.phase = .running then some { state with phase := .finished } else none
  | .setIdle => if state.phase = .finished then some { state with phase := .waiting } else none
  | .exit => if state.phase = .leaving then some { state with phase := .exited } else none
  | .check =>
    if state.caller = .checking then
      some { state with
        caller := match state.phase.status, method with
          | .idle, _ => .notifying
          | .working, .gracefulShutdown => .sleeping
          | .working, .shutdownIdleOnly => .done }
    else none
  | .sleep => if state.caller = .sleeping then some { state with caller := .checking } else none
  | .notify =>
    if state.caller = .notifying then some { state with caller := .polling, notified := true } else none
  | .poll timeUp =>
    if state.caller = .polling then
      some { state with
        caller := if state.phase.status = .working ∧ timeUp = false then .polling else .acknowledging }
    else none
  | .acknowledge sent =>
    if state.caller = .acknowledging then
      some { state with
        caller := match method with
          | .gracefulShutdown => if sent then .deleting else .done
          | .shutdownIdleOnly => .deleting }
    else none
  | .delete =>
    if state.caller = .deleting then
      some { state with phase := .aborted, caller := .done, interrupted := decide (state.phase = .running) }
    else none

/-- The steps of the loop of `Worker::start`. -/
def Event.isOwn : Event → Bool
  | .receive | .notice | .setWorking | .runPipeline | .skip | .finish | .setIdle | .exit => true
  | .arrive | .check | .sleep | .notify | .poll _ | .acknowledge _ | .delete => false

/-- The first stage of `shutdown_all_workers_two_stage`. -/
structure FirstStage where
  signalled : Bool := false
  workers : List State
  deriving DecidableEq

inductive StageEvent where
  | signal
  | worker (index : Nat) (event : Event)

/-- No worker subscribes to the channel of `shutdown_tx.send`, and the loops wait for
their own `shutdown_notify` only. -/
def FirstStage.step (stage : FirstStage) : StageEvent → Option FirstStage
  | .signal => some { stage with signalled := true }
  | .worker index event =>
    stage.workers[index]?.bind fun worker =>
      (GracefulShutdown.step .gracefulShutdown worker event).map fun next =>
        { stage with workers := stage.workers.set index next }

/-- `is_shutdown_complete` of every worker; the flag is set when the loop has ended. -/
def FirstStage.allDone (stage : FirstStage) : Bool := stage.workers.all fun worker => worker.phase = .exited

end EventBase.GracefulShutdown
