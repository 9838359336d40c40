import EventBase.Dispatcher
import EventBase.Worker
import EventBase.Foundations.AssocList

/-! The registration half of `ConsumerRouter`: the maps it keeps about topics and
workers, the single updates its methods make to them, and the methods as the
sequences of updates they are when nothing else runs. A queue, a pipeline and an
inbox are represented by numbers. -/

namespace EventBase

open Foundations

structure TopicEntry where
  queue : Nat
  pipeline : Option Nat := none
  workers : List String := []
  deriving DecidableEq, Repr

/-- A task started by `spawn_topic_dispatcher`; nothing ever ends one. -/
structure SpawnedDispatcher where
  topic : String
  queue : Nat
  deriving DecidableEq, Repr

/-- `channels` counts the inboxes made so far. -/
structure ConsumerRouter where
  localTopics : Table TopicEntry := ∅
  workerIndex : Table Worker := ∅
  dispatchWorkers : Table (List String) := ∅
  dispatchEnabled : Table Bool := ∅
  localInboxes : Table Nat := ∅
  dispatchGeneration : Nat := 0
  dispatchers : List SpawnedDispatcher := []
  channels : Nat := 0

namespace ConsumerRouter

/-- `local_topics[topic].workers`; an absent topic has none. -/
def listed (router : ConsumerRouter) (topic : String) : List String :=
  ((router.localTopics.lookup topic).map TopicEntry.workers).getD []

/-- `dispatch_workers[topic]`, as the dispatch loop reads it. -/
def published (router : ConsumerRouter) (topic : String) : List String :=
  (router.dispatchWorkers.lookup topic).getD []

def attachInbox (router : ConsumerRouter) (name : String) : ConsumerRouter :=
  { router with
    localInboxes := router.localInboxes.insert name router.channels
    channels := router.channels + 1 }

def isEnabled (router : ConsumerRouter) (topic : String) : Bool :=
  router.dispatchEnabled.lookup topic == some true

def enable (router : ConsumerRouter) (topic : String) : ConsumerRouter :=
  { router with dispatchEnabled := router.dispatchEnabled.insert topic true }

def spawnTopicDispatcher (router : ConsumerRouter) (topic : String) (queue : Nat) : ConsumerRouter :=
  { router with dispatchers := router.dispatchers ++ [⟨topic, queue⟩] }

def indexWorker (router : ConsumerRouter) (worker : Worker) : ConsumerRouter :=
  { router with workerIndex := router.workerIndex.insert worker.name worker }

def listWorker (router : ConsumerRouter) (topic : String) (entry : TopicEntry) (name : String) : ConsumerRouter :=
  { router with
    localTopics := router.localTopics.insert topic { entry with workers := entry.workers ++ [name] } }

def publishWorker (router : ConsumerRouter) (topic name : String) : ConsumerRouter :=
  { router with dispatchWorkers := router.dispatchWorkers.insert topic (router.published topic ++ [name]) }

def bumpGeneration (router : ConsumerRouter) : ConsumerRouter :=
  { router with dispatchGeneration := router.dispatchGeneration + 1 }

def unindexWorker (router : ConsumerRouter) (name : String) : ConsumerRouter :=
  { router with workerIndex := router.workerIndex.erase name }

def detachInbox (router : ConsumerRouter) (name : String) : ConsumerRouter :=
  { router with localInboxes := router.localInboxes.erase name }

def unlistWorker (router : ConsumerRouter) (name : String) : ConsumerRouter :=
  { router with
    localTopics := mapValues
      (fun entry => { entry with workers := entry.workers.filter (fun other => other ≠ name) }) router.localTopics }

def unpublishWorker (router : ConsumerRouter) (name : String) : ConsumerRouter :=
  { router with
    dispatchWorkers := mapValues (List.filter (fun other => other ≠ name)) router.dispatchWorkers }

def removeTopic (router : ConsumerRouter) (topic : String) : ConsumerRouter :=
  { router with localTopics := router.localTopics.erase topic }

def unpublishTopic (router : ConsumerRouter) (topic : String) : ConsumerRouter :=
  { router with dispatchWorkers := router.dispatchWorkers.erase topic }

def disable (router : ConsumerRouter) (topic : String) : ConsumerRouter :=
  { router with dispatchEnabled := router.dispatchEnabled.erase topic }

/-- `created` is what the factory answers for the topic's queue. -/
def register (router : ConsumerRouter) (topic : String) (created : Except CoreError Nat) :
    Except CoreError Unit × ConsumerRouter :=
  if topic ∈ router.localTopics then (.error (.topic (.alreadyExists topic)), router)
  else
    match created with
    | .error error => (.error error, router)
    | .ok queue => (.ok (), { router with localTopics := router.localTopics.insert topic { queue := queue } })

def setPipeline (router : ConsumerRouter) (topic : String) (pipeline : Nat) : Except CoreError Unit × ConsumerRouter :=
  match router.localTopics.lookup topic with
  | none => (.error (.topic (.notFound topic)), router)
  | some entry =>
    (.ok (), { router with localTopics := router.localTopics.insert topic { entry with pipeline := some pipeline } })

def registerWorker (router : ConsumerRouter) (topic : String) (worker : Worker) :
    Except CoreError Unit × ConsumerRouter :=
  let router := router.indexWorker worker
  match router.localTopics.lookup topic with
  | some entry =>
    (.ok (), ((router.listWorker topic entry worker.name).publishWorker topic worker.name).bumpGeneration)
  | none => (.error (.topic (.notFound topic)), router)

/-- The dispatcher of a topic is started with its first worker. -/
def startDispatcher (router : ConsumerRouter) (topic : String) (queue : Nat) : ConsumerRouter :=
  if router.isEnabled topic then router else (router.enable topic).spawnTopicDispatcher topic queue

/-- The announcement is sent after the worker is registered and never fails the
call, so it leaves no trace in the router. -/
def createWorker (router : ConsumerRouter) (worker : Worker) : Except CoreError String × ConsumerRouter :=
  match router.localTopics.lookup worker.topic with
  | none => (.error (.topic (.notFound worker.topic)), router)
  | some entry =>
    let (result, router) :=
      ((router.attachInbox worker.name).startDispatcher worker.topic entry.queue).registerWorker worker.topic worker
    (result.map fun _ => worker.name, router)

def delWorker (router : ConsumerRouter) (name : String) : Except CoreError Unit × ConsumerRouter :=
  if name ∈ router.workerIndex then
    (.ok (), ((((router.unindexWorker name).detachInbox name).unlistWorker name).unpublishWorker name).bumpGeneration)
  else (.error (.workerNotFound name), router)

/-- One turn of the loop of `del_workers`. -/
def evict (router : ConsumerRouter) (name : String) : ConsumerRouter :=
  if name ∈ router.workerIndex then (router.unindexWorker name).detachInbox name else router

def delWorkers (router : ConsumerRouter) (topic : String) : Except CoreError Unit × ConsumerRouter :=
  (.ok (), (((((router.listed topic).foldl evict router).removeTopic topic).unpublishTopic topic).disable
    topic).bumpGeneration)

def getWorkers (router : ConsumerRouter) (topic : String) : List Worker :=
  (router.listed topic).filterMap fun name => router.workerIndex.lookup name

def getAllWorkers (router : ConsumerRouter) : List Worker := router.workerIndex.entries.map Sigma.snd

end ConsumerRouter

/-- The calls that change the maps. `created` is the answer of the queue factory. -/
inductive RouterCall where
  | register (topic : String) (created : Except CoreError Nat)
  | createWorker (worker : Worker)
  | delWorker (name : String)
  | delWorkers (topic : String)
  | setPipeline (topic : String) (pipeline : Nat)

/-- The router after a call that ran to its end. A created worker's name holds a
new UUID, so no worker in the index has it. -/
def ConsumerRouter.call (router : ConsumerRouter) : RouterCall → Option ConsumerRouter
  | .register topic created => some (router.register topic created).2
  | .createWorker worker => if worker.name ∈ router.workerIndex then none else some (router.createWorker worker).2
  | .delWorker name => some (router.delWorker name).2
  | .delWorkers topic => some (router.delWorkers topic).2
  | .setPipeline topic pipeline => some (router.setPipeline topic pipeline).2

end EventBase
