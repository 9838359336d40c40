import EventBase.ConsumerRouter
import EventBase.Foundations.NestedLocks

/-! The locks inside `ConsumerRouter`. Each method is the sequence of guards it
takes, with the updates it makes under them; guards are dropped in the reverse
order of their declaration, a temporary at the end of its statement. -/

namespace EventBase
open Foundations FairLock NestedLocks

inductive RouterLock where
  | localTopics
  | workerIndex
  | idleWorkers
  | localInboxes
  | dispatchWorkers
  | dispatchEnabled
  deriving DecidableEq, Repr

/-- What the locks guard. -/
structure GuardedRouter where
  router : ConsumerRouter := {}
  idleWorkers : Table (List String) := ∅

abbrev RouterCode := Code RouterLock GuardedRouter

abbrev RouterSystem := NestedLocks.System RouterLock GuardedRouter

inductive RouterMethod where
  | register (topic : String) (created : Except CoreError Nat)
  | setPipeline (topic : String) (pipeline : Nat)
  | registerWorker (topic : String) (worker : Worker)
  | createWorker (worker : Worker)
  | getWorkers (topic : String)
  | getWorker (name : String)
  | getAllWorkers
  | delWorker (name : String)
  | delWorkers (topic : String)
  | selectLocalIdleWorker (topic : String)
  | setIdle (topic name : String)
  | setWorking (topic name : String)

namespace GuardedRouter

def change (update : ConsumerRouter → ConsumerRouter) (data : GuardedRouter) : GuardedRouter :=
  { data with router := update data.router }

/-- The worker the idle pool of the topic would give out next. -/
def idle (data : GuardedRouter) (topic : String) : Option String :=
  (data.idleWorkers.lookup topic).bind List.getLast?

def popIdle (topic : String) (data : GuardedRouter) : GuardedRouter :=
  match data.idleWorkers.lookup topic with
  | some names => { data with idleWorkers := data.idleWorkers.insert topic names.dropLast }
  | none => data

def pushIdle (topic name : String) (data : GuardedRouter) : GuardedRouter :=
  { data with
    idleWorkers := data.idleWorkers.insert topic ((data.idleWorkers.lookup topic).getD [] ++ [name]) }

def dropIdle (topic name : String) (data : GuardedRouter) : GuardedRouter :=
  match data.idleWorkers.lookup topic with
  | some names =>
    { data with idleWorkers := data.idleWorkers.insert topic (names.filter (fun other => other ≠ name)) }
  | none => data

end GuardedRouter

namespace RouterMethod
open ConsumerRouter GuardedRouter

/-- The worker enters the index in any case, and its topic's list if there is one. -/
def addWorker (topic : String) (worker : Worker) (router : ConsumerRouter) : ConsumerRouter :=
  match router.localTopics.lookup topic with
  | some entry => (router.indexWorker worker).listWorker topic entry worker.name
  | none => router.indexWorker worker

def registerWorkerCode (topic : String) (worker : Worker) : RouterCode :=
  .acquire .localTopics .write id fun _ =>
    .acquire .workerIndex .write (change (addWorker topic worker)) fun data =>
      match data.router.localTopics.lookup topic with
      | some _ =>
        .guard .dispatchWorkers .write (change fun router => (router.publishWorker topic worker.name).bumpGeneration) fun _ =>
          .release .workerIndex (.release .localTopics .done)
      | none => .release .workerIndex (.release .localTopics .done)

def createWorkerCode (worker : Worker) : RouterCode :=
  .guard .localTopics .read id fun data =>
    match data.router.localTopics.lookup worker.topic with
    | none => .done
    | some entry =>
      .guard .localInboxes .write (change fun router => router.attachInbox worker.name) fun _ =>
        .guard .dispatchEnabled .write (change fun router => router.startDispatcher worker.topic entry.queue) fun _ =>
          registerWorkerCode worker.topic worker

/-- `worker_index` stays locked, so what the loop of `del_workers` finds there is known from the start. -/
def evictCode (rest : RouterCode) : List String → ConsumerRouter → RouterCode
  | [], _ => rest
  | name :: names, router =>
    if name ∈ router.workerIndex then
      .guard .localInboxes .write (change fun router => router.evict name) fun _ => evictCode rest names (router.evict name)
    else evictCode rest names router

def delWorkersCode (topic : String) : RouterCode :=
  .acquire .localTopics .write id fun _ =>
    .acquire .workerIndex .write id fun data =>
      evictCode
        (.guard .dispatchWorkers .write (change fun router => (router.removeTopic topic).unpublishTopic topic) fun _ =>
          .guard .dispatchEnabled .write (change fun router => (router.disable topic).bumpGeneration) fun _ =>
            .release .workerIndex (.release .localTopics .done))
        (data.router.listed topic) data.router

def delWorkerCode (name : String) : RouterCode :=
  .acquire .workerIndex .write (change fun router => router.unindexWorker name) fun data =>
    if name ∈ data.router.workerIndex then
      .guard .localInboxes .write (change fun router => router.detachInbox name) fun _ =>
        .acquire .localTopics .write (change fun router => router.unlistWorker name) fun _ =>
          .guard .dispatchWorkers .write (change fun router => (router.unpublishWorker name).bumpGeneration) fun _ =>
            .release .localTopics (.release .workerIndex .done)
    else .release .workerIndex .done

def selectLocalIdleWorkerCode (topic : String) : RouterCode :=
  .acquire .idleWorkers .write (popIdle topic) fun data =>
    match data.idle topic with
    | some _ => .guard .workerIndex .read id fun _ => .release .idleWorkers .done
    | none => .release .idleWorkers .done

def code : RouterMethod → RouterCode
  | .register topic created =>
    .guard .localTopics .write (change fun router => (router.register topic created).2) fun _ => .done
  | .setPipeline topic pipeline =>
    .guard .localTopics .write (change fun router => (router.setPipeline topic pipeline).2) fun _ => .done
  | .registerWorker topic worker => registerWorkerCode topic worker
  | .createWorker worker => createWorkerCode worker
  | .getWorkers _ => .acquire .localTopics .read id fun _ => .guard .workerIndex .read id fun _ => .release .localTopics .done
  | .getWorker _ => .guard .workerIndex .read id fun _ => .done
  | .getAllWorkers => .guard .workerIndex .read id fun _ => .done
  | .delWorker name => delWorkerCode name
  | .delWorkers topic => delWorkersCode topic
  | .selectLocalIdleWorker topic => selectLocalIdleWorkerCode topic
  | .setIdle topic name => .guard .idleWorkers .write (pushIdle topic name) fun _ => .done
  | .setWorking topic name => .guard .idleWorkers .write (dropIdle topic name) fun _ => .done

/-- What the method leaves behind when nothing else runs. -/
def alone : RouterMethod → GuardedRouter → GuardedRouter
  | .register topic created => change fun router => (router.register topic created).2
  | .setPipeline topic pipeline => change fun router => (router.setPipeline topic pipeline).2
  | .registerWorker topic worker => change fun router => (router.registerWorker topic worker).2
  | .createWorker worker => change fun router => (router.createWorker worker).2
  | .getWorkers _ | .getWorker _ | .getAllWorkers => id
  | .delWorker name => change fun router => (router.delWorker name).2
  | .delWorkers topic => change fun router => (router.delWorkers topic).2
  | .selectLocalIdleWorker topic => popIdle topic
  | .setIdle topic name => pushIdle topic name
  | .setWorking topic name => dropIdle topic name

end RouterMethod

/-- A router on which the calls are about to run. -/
def RouterSystem.start (data : GuardedRouter) (methods : List RouterMethod) : RouterSystem where
  data := data
  codes := methods.map RouterMethod.code

end EventBase
