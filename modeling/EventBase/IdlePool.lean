import EventBase.GracefulShutdown
import EventBase.RecvLoop

/-! The pool of idle workers. A worker without an inbox tells the router when it starts
and ends with a message, a worker with one only notes it in its own status;
`create_worker` attaches an inbox before it starts the worker. -/

namespace EventBase

open GracefulShutdown (WorkerStatus)

def RecvNode.setIdle (node : RecvNode) (topic name : String) : RecvNode :=
  { node with idleWorkers := node.idleWorkers.insert topic ((node.idleWorkers.lookup topic).getD [] ++ [name]) }

def RecvNode.setWorking (node : RecvNode) (topic name : String) : RecvNode :=
  match node.idleWorkers.lookup topic with
  | some names => { node with idleWorkers := node.idleWorkers.insert topic (names.filter (fun other => other ≠ name)) }
  | none => node

/-- A worker as its own task sees it. -/
structure WorkerTask where
  worker : Worker
  inbox : Bool
  status : WorkerStatus := .idle
  deriving DecidableEq

/-- `tasks` has every worker that was created, by its name. -/
structure PoolNode where
  node : RecvNode := {}
  tasks : Table WorkerTask := ∅

inductive PoolEvent where
  | call (request : RouterCall)
  | status (name : String) (status : WorkerStatus)
  | recv (env : RecvEnv) (claimed : ClaimedMessage EMessage)

def RecvEnv.alone (env : RecvEnv) : RecvEnv := { env with others := fun _ node => node }

namespace PoolNode

/-- `create_worker` starts a worker unless it fails. -/
def start (state : PoolNode) (router : ConsumerRouter) : RouterCall → Table WorkerTask
  | .createWorker worker =>
    match router.createWorker worker with
    | (.ok name, _) => state.tasks.insert name { worker, inbox := true }
    | (.error _, _) => state.tasks
  | _ => state.tasks

def setStatus (state : PoolNode) (task : WorkerTask) (status : WorkerStatus) : PoolNode :=
  let node := match status with
    | .idle => state.node.setIdle task.worker.topic task.worker.name
    | .working => state.node.setWorking task.worker.topic task.worker.name
  { node, tasks := state.tasks.insert task.worker.name { task with status } }

def setLocalStatus (state : PoolNode) (task : WorkerTask) (status : WorkerStatus) : PoolNode :=
  { state with tasks := state.tasks.insert task.worker.name { task with status } }

def step (state : PoolNode) : PoolEvent → Option PoolNode
  | .call request =>
    (state.node.router.call request).map fun router =>
      { node := { state.node with router }, tasks := state.start state.node.router request }
  | .status name status =>
    (state.tasks.lookup name).map fun task =>
      if task.inbox then state.setLocalStatus task status else state.setStatus task status
  | .recv env claimed => some { state with node := (({ node := state.node } : RecvPass).handle env.alone claimed).node }

end PoolNode

end EventBase
