import EventBase.ConsumerRouter
import EventBase.MemoryQueue

/-! The dispatch pass of `ConsumerRouter::recv` over a batch of claims. Every read of a
shared map takes its own lock, so before each of them the rest of the node may have
done anything; what it did and how the sends end is answered by the environment. -/

namespace EventBase

/-- What leaves the pass: a message to a worker's producer, to the producer of a
topic, or to a worker made for it. -/
inductive RecvEmission where
  | forwarded (worker : Worker) (message : EMessage)
  | relayed (topic : String) (message : EMessage)
  | spawned (topic : String) (message : EMessage)
  deriving DecidableEq

/-- The router with its pool of idle workers. -/
structure RecvNode where
  router : ConsumerRouter := {}
  idleWorkers : Table (List String) := ∅

/-- The n-th lock is taken on the node that `others n` leaves; a send that comes after
n locks is answered by `sends n`, `try_get_node_name` by `nodeName n`. -/
structure RecvEnv where
  nodeName : Nat → Option String := fun _ => none
  others : Nat → RecvNode → RecvNode := fun _ node => node
  sends : Nat → Option CoreError := fun _ => none

/-- Copies are listed with the claim they were emitted for. -/
structure RecvPass where
  node : RecvNode
  toAck : List String := []
  toNack : List String := []
  emitted : List (String × RecvEmission) := []
  locks : Nat := 0

/-- A bare target names a worker of this node. -/
def ConsumerRouter.resolveTarget (router : ConsumerRouter) (node : Option String) (target : String) : Option Worker :=
  (router.workerIndex.lookup target).or (node.bind fun node => router.workerIndex.lookup (node ++ "@" ++ target))

namespace RecvPass

def ack (pass : RecvPass) (claimId : String) : RecvPass := { pass with toAck := pass.toAck ++ [claimId] }

def nack (pass : RecvPass) (claimId : String) : RecvPass := { pass with toNack := pass.toNack ++ [claimId] }

def emit (pass : RecvPass) (claimId : String) (emission : RecvEmission) : RecvPass :=
  { pass with emitted := pass.emitted ++ [(claimId, emission)] }

section
variable (env : RecvEnv)

def lock (pass : RecvPass) : RecvPass :=
  { pass with node := env.others pass.locks pass.node, locks := pass.locks + 1 }

def send (pass : RecvPass) (claimId : String) (emission : RecvEmission) : RecvPass :=
  match env.sends pass.locks with
  | none => (pass.emit claimId emission).ack claimId
  | some _ => pass.nack claimId

/-- The name leaves the pool even if the index does not have it. -/
def selectLocalIdleWorker (pass : RecvPass) (topic : String) : Option Worker × RecvPass :=
  let pass := pass.lock env
  match pass.node.idleWorkers.lookup topic with
  | none => (none, pass)
  | some names =>
    match names.getLast? with
    | none => (none, pass)
    | some name =>
      let idleWorkers := pass.node.idleWorkers.insert topic names.dropLast
      let pass := { pass with node := { pass.node with idleWorkers } }.lock env
      (pass.node.router.workerIndex.lookup name, pass)

def selectWorker (pass : RecvPass) (msg : EMessage) : Option Worker × RecvPass :=
  match msg.toWorker with
  | some target =>
    let pass := pass.lock env
    (pass.node.router.resolveTarget (env.nodeName pass.locks) target, pass)
  | none => pass.selectLocalIdleWorker env msg.topic

def relay (pass : RecvPass) (claimId : String) (msg : EMessage) : RecvPass :=
  let pass := pass.lock env
  match pass.node.router.localTopics.lookup msg.topic with
  | some _ => pass.send env claimId (.relayed msg.topic { msg with attempts := msg.attempts + 1 })
  | none => pass.nack claimId

def createEphemeralWorker (pass : RecvPass) (claimId : String) (msg : EMessage) : RecvPass :=
  let pass := pass.lock env
  match pass.node.router.localTopics.lookup msg.topic with
  | some _ => (pass.emit claimId (.spawned msg.topic msg)).ack claimId
  | none => pass.nack claimId

def handle (pass : RecvPass) (claimed : ClaimedMessage EMessage) : RecvPass :=
  let msg := claimed.message
  let pass := pass.lock env
  if msg.topic ∉ pass.node.router.localTopics then pass.nack claimed.claimId
  else
    let (worker, pass) := pass.selectWorker env msg
    match worker with
    | some worker => pass.send env claimed.claimId (.forwarded worker msg)
    | none =>
      if msg.toWorker.isSome then
        if maxTargetedHops ≤ msg.attempts then pass.ack claimed.claimId
        else pass.relay env claimed.claimId msg
      else pass.createEphemeralWorker env claimed.claimId msg

def dispatchBatch (pass : RecvPass) (batch : List (ClaimedMessage EMessage)) : RecvPass := batch.foldl (handle env) pass

end

end RecvPass

end EventBase
