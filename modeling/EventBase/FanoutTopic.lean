import EventBase.Foundations.ConsumerGroup
import EventBase.Foundations.Run
import EventBase.Message

/-! A coordination topic on the Redis backend: one stream with a consumer group for every
node. A node's group is created by the first read of the dispatcher that `create_worker`
has spawned, in a task of its own. -/

namespace EventBase
open Foundations

def systemTopicShutdown : String := "_system.shutdown"
def systemTopicTopicSync : String := "_system.topic_sync"
def systemTopicMetrics : String := "_system.metrics"

/-- `FANOUT_SYSTEM_TOPICS` -/
def fanoutSystemTopics : List String := [systemTopicShutdown, systemTopicTopicSync, systemTopicMetrics]

/-- `group_for`. A node without an identity shares the group of all. -/
def groupFor (group topic : String) (node : Option String) : String :=
  match node with
  | some node => if topic ∈ fanoutSystemTopics then group ++ "@" ++ node else group
  | none => group

/-- `group_start_for`: a fan-out group starts at `$`, any other at `0`. -/
def startsAtEnd (topic : String) : Bool := topic ∈ fanoutSystemTopics

/-- How far the topic's dispatcher is with its first read. -/
inductive DispatcherPhase where
  | absent
  | spawned
  | connected
  | ready
  deriving DecidableEq

/-- `created` once `create_worker` has returned. -/
structure FanoutNode where
  created : Bool := false
  dispatcher : DispatcherPhase := .absent
  deriving DecidableEq

/-- Nodes are known by their ids, groups by their names. -/
structure FanoutTopic where
  entries : List EMessage := []
  groups : String → Option Group := fun _ => none
  nodes : String → FanoutNode := fun _ => {}

inductive FanoutEvent where
  /-- `XADD` -/
  | publish (message : EMessage)
  /-- `create_worker`, as far as the spawn of the dispatcher -/
  | spawn (node : String)
  | created (node : String)
  | connect (node : String)
  /-- `XGROUP CREATE`; the answer may be lost. -/
  | ensureGroup (node : String) (answered : Bool)
  /-- `XREADGROUP` -/
  | readGroup (node : String) (count : Nat)
  /-- The process of the node ends; its group stays. -/
  | stop (node : String)
  deriving DecidableEq

namespace FanoutTopic

/-- The stream as one group's readers see it. -/
def stream (state : FanoutTopic) (name : String) : Stream EMessage := ⟨state.entries, state.groups name⟩

def setNode (state : FanoutTopic) (node : String) (value : FanoutNode) : FanoutTopic :=
  { state with nodes := Function.update state.nodes node value }

def setGroup (state : FanoutTopic) (name : String) (group : Option Group) : FanoutTopic :=
  { state with groups := Function.update state.groups name group }

def publish (state : FanoutTopic) (message : EMessage) : FanoutTopic :=
  { state with entries := state.entries ++ [message] }

/-- The nodes share the topic and the configured group name. -/
def step (topic group : String) (state : FanoutTopic) : FanoutEvent → Option FanoutTopic
  | .publish message => some (state.publish message)
  | .spawn node =>
    if (state.nodes node).dispatcher = .absent then some (state.setNode node ⟨false, .spawned⟩) else none
  | .created node =>
    if (state.nodes node).dispatcher = .absent then none
    else some (state.setNode node { state.nodes node with created := true })
  | .connect node =>
    if (state.nodes node).dispatcher = .spawned then
      some (state.setNode node { state.nodes node with dispatcher := .connected })
    else none
  | .ensureGroup node answered =>
    if (state.nodes node).dispatcher = .connected then
      let name := groupFor group topic (some node)
      let state := state.setGroup name ((state.stream name).createGroup (startsAtEnd topic)).group
      some (if answered then state.setNode node { state.nodes node with dispatcher := .ready } else state)
    else none
  | .readGroup node count =>
    if (state.nodes node).dispatcher = .ready then
      let name := groupFor group topic (some node)
      ((state.stream name).readGroup count).map fun (_, after) => state.setGroup name after.group
    else none
  | .stop node => some (state.setNode node {})

end FanoutTopic

end EventBase
