import EventBase.Message
import Mathlib.Data.List.Basic

/-! `ebctl shutdown` from the command line to the end of `ShutdownHandler`, run by a task
that is none of the workers; `ShutdownMethods` has the loops for a task that is one. The
command line, the oneof of `ShutdownRequest` and `ShutdownCommand` have the same
strategies with the same fields, and JSON gives a command back as it was. -/

namespace EventBase

inductive OperatorStrategy where
  | twoStage (pollIntervalMs forceTimeoutSecs : Nat)
  | graceful (workerName : String) (pollIntervalMs : Nat)
  | timeout (totalTimeoutSecs : Nat)
  | force
  | stateBasedIdle
  | batched (batchSize intervalMs : Nat)
  deriving DecidableEq, Repr

/-- `EventBaseService::shutdown`: the command it sends to the handler. -/
def EventBaseService.shutdown : Option OperatorStrategy → Except String OperatorStrategy
  | some (.timeout _) => .error "Invalid strategy"
  | some strategy => .ok strategy
  | none => .error "No shutdown requested"

/-- The workers in the order of the map. `fails` has those whose own shutdown call fails,
`working` those that `shutdown_idle_only` finds `Working`, `rests` those that
`graceful_shutdown` finds `Idle` at some poll; `complete` holds if a poll of the first
stage finds all loops ended. `readable` and `writable` tell whether the guards that are
asked for on `ConsumerRouter::global()` are granted some time; on a node that
`start_system_impl` booted the recv loop keeps a read guard, so no write guard is. -/
structure WorkerSet where
  names : List String
  fails : String → Bool
  working : String → Bool
  rests : String → Bool
  complete : Bool
  readable : Bool
  writable : Bool

/-- How the handler ends: with `Ack` and the workers left, in a panic, or not at all. -/
inductive HandlerEnd where
  | ack (left : List String)
  | panicked
  | waits
  deriving DecidableEq, Repr

namespace WorkerSet
variable (workers : WorkerSet)

def delete (left : List String) (name : String) : List String := left.filter fun other => other ≠ name

def deleteAll (left names : List String) : List String := names.foldl delete left

/-- The forced removal of the two-stage strategy ends at a shutdown call that fails; the
other loops ignore the failure. -/
def removeStrictly (left : List String) : List String → List String
  | [] => left
  | name :: rest => if workers.fails name then left else removeStrictly (delete left name) rest

/-- `del_worker` is called under the write guard. -/
def mayRemove (removals : List String) : Bool := removals.isEmpty || workers.writable

def removing (removals left : List String) : HandlerEnd := if workers.mayRemove removals then .ack left else .waits

/-- Every strategy reads the worker map first. `chunks` panics on zero. The errors of
`twoStage` and `graceful` are printed. -/
def handle (strategy : OperatorStrategy) : HandlerEnd :=
  if !workers.readable then .waits
  else match strategy with
    | .twoStage .. =>
      if workers.complete then workers.removing workers.names (deleteAll workers.names workers.names)
      else workers.removing (workers.names.takeWhile fun name => !workers.fails name)
        (workers.removeStrictly workers.names workers.names)
    | .graceful name _ =>
      if name ∉ workers.names then .ack workers.names
      else if !workers.rests name then .waits
      else if workers.fails name then .ack workers.names
      else workers.removing [name] (delete workers.names name)
    | .timeout _ | .force => workers.removing workers.names (deleteAll workers.names workers.names)
    | .stateBasedIdle =>
      workers.removing (workers.names.filter fun name => !workers.working name)
        (workers.names.foldl (fun left name => if workers.working name then left else delete left name) workers.names)
    | .batched batchSize _ =>
      if batchSize = 0 then .panicked
      else workers.removing workers.names ((workers.names.toChunks batchSize).foldl deleteAll workers.names)

end WorkerSet

end EventBase
