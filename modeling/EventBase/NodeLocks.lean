import EventBase.Foundations.FairLock
import EventBase.Message

/-! The process-wide locks of a booted node. Each task is the sequence of guards
it takes on `TopicRouter::global()` and `ConsumerRouter::global()`; no task takes
one guard while it holds another. -/

namespace EventBase
open Foundations.FairLock

inductive NodeLock where
  | topicRouter
  | consumerRouter
  deriving DecidableEq, Repr

/-- The tasks of a node once `start_system_impl` has spawned its loops. A loop
that takes its guards anew in each pass is a task per pass. -/
inductive NodeTask where
  | recvLoop
  | delayScheduler
  | startUp
  | heartbeatOnce (sends : Nat)
  | nodeCollector
  | topicDiscovery (missing : Nat)
  | topicSync (missing : Nat)
  | routerSend
  | setStatus
  | shutdown (polls : Nat) (removals : List Bool)
  deriving DecidableEq, Repr

/-- A guard that is dropped at the end of its statement. -/
def guarded (lock : NodeLock) (mode : Mode) : Program NodeLock := [.acquire lock mode, .release lock]

/-- One worker's removal: its acknowledgement is sent unless the strategy skips
it, then `del_worker` needs the write guard. -/
def removal (acknowledged : Bool) : Program NodeLock :=
  (if acknowledged then guarded .topicRouter .read else []) ++ guarded .consumerRouter .write

namespace NodeTask

/-- `recv` and `run_delay_scheduler` run inside the guard they start with and
never return. -/
def program : NodeTask → Program NodeLock
  | .recvLoop => [.acquire .consumerRouter .read]
  | .delayScheduler => [.acquire .topicRouter .read]
  | .startUp => guarded .topicRouter .read
  | .heartbeatOnce sends =>
    guarded .consumerRouter .read ++ (List.replicate sends (guarded .topicRouter .read)).flatten
  | .nodeCollector => guarded .consumerRouter .read ++ guarded .topicRouter .read
  | .topicDiscovery missing =>
    guarded .topicRouter .read ++ ((List.replicate missing (guarded .topicRouter .write)).flatten ++
      (guarded .topicRouter .read ++ guarded .topicRouter .read))
  | .topicSync missing =>
    guarded .topicRouter .read ++ (List.replicate missing (guarded .topicRouter .write)).flatten
  | .routerSend => guarded .topicRouter .read
  | .setStatus => guarded .consumerRouter .write
  | .shutdown polls removals =>
    (List.replicate (polls + 1) (guarded .consumerRouter .read)).flatten ++ (removals.map removal).flatten

/-- Only a Host schedules delayed messages and discovers topics; a Host ignores
topic syncs. -/
def runsOn (nodeType : NodeType) : NodeTask → Bool
  | .delayScheduler | .topicDiscovery _ => decide (nodeType = .host)
  | .topicSync _ => decide (nodeType = .worker)
  | _ => true

end NodeTask

/-- A node of this role creates its own tasks only. -/
def NodeStep (nodeType : NodeType) : Event NodeLock → Prop
  | .spawn program => ∃ task : NodeTask, task.runsOn nodeType = true ∧ program = task.program
  | .advance _ => True

end EventBase
