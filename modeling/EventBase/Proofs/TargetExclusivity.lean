import EventBase.Proofs.ClusterSteps

/-! Nodes that share a queue, and a message for one worker. The name it carries leads it to
that worker, whoever claims it. -/

namespace EventBase.Proofs.TargetExclusivity
open Foundations PlaneSteps PlaneCoherence PlaneTraffic TaskTraffic TaskLogic ClusterSteps Dispatcher List

variable {worker : Worker} {target : String} {index : Nat} {origin : EMessage}

section
variable {topic : String} {env : Env} {base : EMessage}

/-- What a task makes of a message with one recipient: on the topic it keeps its
target, and what is delayed without it belongs to another topic. -/
def KeepsTarget (topic : String) (base : EMessage) : Effect → Prop :=
  Lands topic (fun msg => msg.deliveryMode = base.deliveryMode ∧ msg.toWorker = base.toWorker)
    (fun msg => msg.deliveryMode = base.deliveryMode ∧ (msg.toWorker = base.toWorker ∨ msg.topic ≠ topic))

theorem send_keepsTarget {destination msg} (single : base.deliveryMode ≠ .broadcast)
    (mode : msg.deliveryMode = base.deliveryMode)
    (target : msg.toWorker = base.toWorker ∨ destination ≠ topic ∧ msg.topic ≠ topic) :
    EmitsOnly (KeepsTarget topic base) (TopicRouter.send env destination msg none none) := by
  refine send_lands (fun _ => ⟨mode, target.imp_right And.right⟩) ?_ ?_
  · intro _ here
    exact ⟨mode, target.resolve_right fun elsewhere => elsewhere.1 here⟩
  · exact fun broadcast => absurd (mode ▸ broadcast) single

theorem processMsg_keepsTarget {run} (msg : EMessage) (own : worker.topic = topic)
    (single : run.message.deliveryMode ≠ .broadcast) :
    EmitsOnly (KeepsTarget topic run.message) (worker.processMsg env run msg) := by
  have elsewhere : Worker.deadLetterTopic worker.topic ≠ topic := own ▸ deadLetterTopic_ne worker.topic
  refine processMsg_lands msg ⟨fun _ => ⟨rfl, rfl⟩, fun _ _ _ => ⟨rfl, rfl⟩, ?_, ?_, ?_⟩
  · exact fun _ _ _ _ _ => send_keepsTarget single rfl (.inl rfl)
  · exact fun _ _ _ _ => send_keepsTarget single rfl (.inr ⟨elsewhere, elsewhere⟩)
  · exact fun _ _ => send_keepsTarget single rfl (.inr ⟨elsewhere, elsewhere⟩)

theorem deliverDelayed_keepsTarget {msg} (single : msg.deliveryMode ≠ .broadcast) :
    EmitsOnly (Lands topic (fun sent => msg.topic = topic ∧ sent.deliveryMode = msg.deliveryMode ∧
      sent.toWorker = msg.toWorker) fun _ => False) (deliverDelayed env (WalRecord.fromMsg msg)) := by
  refine EmitsOnly.ignore (send_lands (fun due => by cases due) ?_ fun broadcast => absurd broadcast single)
  exact fun _ here => ⟨here, rfl, rfl⟩

end

/-- A worker of the node answers to a target by its own name or by the target
qualified with the node's name. -/
def AnswersTo (node : Option String) (target name : String) : Prop :=
  name = target ∨ ∃ own ∈ node, name = own ++ "@" ++ target

instance (node : Option String) (target name : String) : Decidable (AnswersTo node target name) :=
  inferInstanceAs (Decidable (name = target ∨ ∃ own ∈ node, name = own ++ "@" ++ target))

theorem answersTo_of_resolves {node name} (resolved : resolves node target name = true) :
    AnswersTo node target name := by
  simp only [resolves, Bool.or_eq_true, beq_iff_eq] at resolved
  rcases resolved with same | qualified
  · exact .inl same
  · cases node with
    | none => cases qualified
    | some own => exact .inr ⟨own, rfl, eq_of_beq qualified⟩

/-- The middleware of the workers leaves `to_worker` alone. -/
def Untouched (cluster : Cluster) : ClusterEvent → Prop
  | .node index (.finish channel _ run) => ∀ cell ∈ (cluster.planes index).cells[channel]?, ∀ copy ∈ cell.hand,
      run.message.toWorker = copy.message.toWorker
  | .process place _ run => ∀ direct ∈ cluster.directs[place]?, ∀ copy ∈ direct.hand,
      run.message.toWorker = copy.message.toWorker
  | _ => True

def leavesTarget (cluster : Cluster) : ClusterEvent → Bool
  | .node index (.finish channel _ run) => decide (∀ cell ∈ (cluster.planes index).cells[channel]?, ∀ copy ∈ cell.hand,
      run.message.toWorker = copy.message.toWorker)
  | .process place _ run => decide (∀ direct ∈ cluster.directs[place]?, ∀ copy ∈ direct.hand,
      run.message.toWorker = copy.message.toWorker)
  | _ => true

theorem leavesTarget_iff (cluster : Cluster) (event : ClusterEvent) :
    leavesTarget cluster event = true ↔ Untouched cluster event := by
  unfold leavesTarget Untouched
  split
  · exact decide_eq_true_iff
  · exact decide_eq_true_iff
  · exact iff_of_true rfl trivial

instance (cluster : Cluster) (event : ClusterEvent) : Decidable (Untouched cluster event) :=
  decidable_of_iff _ (leavesTarget_iff cluster event)

/-- The step runs the pipeline of a worker of this name on the node: a worker with
an inbox, one that the recv loop started for the message, or one without an inbox. -/
inductive Handles (cluster : Cluster) : ClusterEvent → Nat → String → Copy → Prop
  | inbox (index channel : Nat) (env : Env) (run : PipelineRun) (cell : Cell) (copy : Copy)
      (found : (cluster.planes index).cells[channel]? = some cell) (hand : cell.hand = some copy)
      (addressed : cell.worker.isMisrouted copy.message = false) :
      Handles cluster (.node index (.finish channel env run)) index cell.worker.name copy
  | ephemeral (index place : Nat) (name : String) (env : Env) (run : PipelineRun) (copy : Copy)
      (found : (cluster.planes index).ephemerals[place]? = some copy) :
      Handles cluster (.node index (.finishEphemeral place name env run)) index name copy
  | direct (place : Nat) (env : Env) (run : PipelineRun) (direct : DirectWorker) (copy : Copy)
      (found : cluster.directs[place]? = some direct) (hand : direct.hand = some copy)
      (addressed : direct.worker.isMisrouted copy.message = false) :
      Handles cluster (.process place env run) direct.node direct.worker.name copy

/-- What became of a Standard or Repeated message that no middleware has made a
broadcast. -/
structure Plain (cluster : Cluster) (copy : Copy) : Prop where
  sent : copy.origin.deliveryMode ≠ .broadcast
  still : copy.origin ∉ cluster.broadcasts

/-- Only the worker a message was sent to handles it, and no worker finds a message
for another one in its inbox. -/
structure Exclusive (config : ClusterConfig) (cluster : Cluster) : Prop where
  handled : ∀ event index name copy target, Handles cluster event index name copy → Plain cluster copy →
    copy.origin.toWorker = some target → AnswersTo (config.node index) target name
  inboxes : ∀ index, ∀ cell ∈ (cluster.planes index).cells, ∀ copy ∈ cell.copies,
    copy.message.toWorker = some cell.worker.name
  settled : ∀ index, ∀ cell ∈ (cluster.planes index).cells, ∀ copy ∈ cell.hand, cell.worker.isMisrouted copy.message = false

section
variable (config : ClusterConfig) (cluster : Cluster)

def Allowed (target name : String) : Prop :=
  name = target ∨ ∃ index worker, MadeOn config cluster index worker ∧ worker.name = name ∧
    AnswersTo (config.node index) target name

/-- The message carries the target it was sent with, or the name it was resolved to. -/
def Aimed (copy : Copy) : Prop :=
  ∀ target, copy.origin.toWorker = some target → ∃ name, copy.message.toWorker = some name ∧ Allowed config cluster target name

def Moving (copy : Copy) : Prop :=
  Plain cluster copy → copy.message.deliveryMode ≠ .broadcast ∧ Aimed config cluster copy

def Delayed (copy : Copy) : Prop :=
  Plain cluster copy → copy.message.deliveryMode ≠ .broadcast ∧ (copy.message.topic = config.topic → Aimed config cluster copy)

def Spawned (copy : Copy) : Prop :=
  Plain cluster copy → copy.message.deliveryMode ≠ .broadcast ∧ copy.origin.toWorker = none

abbrev AimedTraffic : Cluster → Prop :=
  Traffic (Moving config cluster) (Delayed config cluster) (Spawned cluster) config

abbrev AimedEffect (origin : EMessage) : Effect → Prop :=
  Lands config.topic (fun msg => Moving config cluster ⟨msg, origin⟩) fun msg => Delayed config cluster ⟨msg, origin⟩

end

section
variable {config : ClusterConfig} {cluster next : Cluster} {event : ClusterEvent}

theorem grows (moved : Moves config cluster event next) :
    cluster.made ⊆ next.made ∧ cluster.broadcasts ⊆ next.broadcasts := by
  cases moved with
  | node | process => exact ⟨Subset.refl _, subset_append_right _ _⟩
  | create | startDirect => exact ⟨subset_cons_self _ _, Subset.refl _⟩
  | _ => exact ⟨Subset.refl _, Subset.refl _⟩

theorem madeOn_mono (made : MadeOn config cluster index worker)
    (grown : cluster.made ⊆ next.made) : MadeOn config next index worker := by
  obtain ⟨uuid, timeOut, listed, same⟩ := made
  exact ⟨uuid, timeOut, grown listed, same⟩

theorem Aimed.mono {copy} (aimed : Aimed config cluster copy) (grown : cluster.made ⊆ next.made) :
    Aimed config next copy := by
  intro target sent
  obtain ⟨name, named, allowed⟩ := aimed target sent
  refine ⟨name, named, allowed.imp_right ?_⟩
  rintro ⟨index, worker, made, same, answers⟩
  exact ⟨index, worker, madeOn_mono made grown, same, answers⟩

theorem aimedTraffic_mono (traffic : AimedTraffic config cluster cluster) (moved : Moves config cluster event next) :
    AimedTraffic config next cluster := by
  obtain ⟨made, broadcasts⟩ := grows moved
  have plain {copy : Copy} (later : Plain next copy) : Plain cluster copy :=
    ⟨later.sent, fun turned => later.still (broadcasts turned)⟩
  refine traffic.imp ?_ ?_ ?_
  · exact fun copy moving later => (moving (plain later)).imp_right fun aimed => aimed.mono made
  · exact fun copy delayed later => (delayed (plain later)).imp_right fun aimed here => (aimed here).mono made
  · exact fun copy spawned later => spawned (plain later)

theorem aimed_lands {base effect} (keeps : KeepsTarget config.topic base effect)
    (single : base.deliveryMode ≠ .broadcast) (aimed : Aimed config next ⟨base, origin⟩) :
    AimedEffect config next origin effect := by
  have aims {msg : EMessage} (same : msg.toWorker = base.toWorker) : Aimed config next ⟨msg, origin⟩ := by
    intro target sent
    obtain ⟨name, named, allowed⟩ := aimed target sent
    exact ⟨name, same.trans named, allowed⟩
  refine keeps.imp (fun msg kept _ => ⟨kept.1 ▸ single, aims kept.2⟩) fun msg kept _ => ⟨kept.1 ▸ single, fun here => ?_⟩
  exact aims (kept.2.resolve_right fun elsewhere => elsewhere here)

theorem lands_of_plain {effect}
    (lands : origin.deliveryMode ≠ .broadcast → origin ∉ next.broadcasts → AimedEffect config next origin effect) :
    AimedEffect config next origin effect :=
  ⟨fun msg sent plain => (lands plain.sent plain.still).outgoing msg sent plain,
    fun msg later plain => (lands plain.sent plain.still).scheduled msg later plain⟩

theorem processed_lands {env run copy} (own : worker.topic = config.topic) (moving : Moving config next copy)
    (untouched : run.message.toWorker = copy.message.toWorker) (recorded : turned (some copy) run ⊆ next.broadcasts) :
    ∀ effect ∈ (worker.processMsg env run copy.message).outcome.1, AimedEffect config next copy.origin effect := by
  intro effect member
  refine lands_of_plain fun sent still => ?_
  obtain ⟨_, aimed⟩ := moving ⟨sent, still⟩
  have single : run.message.deliveryMode ≠ .broadcast := by
    intro broadcast
    exact still (recorded (by simp [turned, broadcast]))
  refine aimed_lands (Emits.outcome (processMsg_keepsTarget copy.message own single) effect member) single ?_
  intro target sent
  obtain ⟨name, named, allowed⟩ := aimed target sent
  exact ⟨name, untouched.trans named, allowed⟩

section
variable (staffed : Staffed config cluster)
include staffed

theorem cachedWorker_made {handle} (member : handle ∈ (cluster.planes index).dispatcher.cached) :
    ∃ worker, MadeOn config cluster index worker ∧ worker.name = handle.name := by
  obtain ⟨worker, listed, same⟩ := (staffed.coherent index).wired.cached handle member
  obtain ⟨cell, present, rfl⟩ := mem_map.mp (mem_of_getElem? listed)
  exact ⟨cell.worker, staffed.cells index cell present, same⟩

theorem allowed_resolved {name} (made : MadeOn config cluster index worker)
    (allowed : Allowed config cluster target name) (resolved : resolves (config.node index) name worker.name = true) :
    Allowed config cluster target worker.name := by
  rcases allowed with rfl | ⟨other, owner, theirs, rfl, answers⟩
  · exact .inr ⟨index, worker, made, rfl, answersTo_of_resolves resolved⟩
  · obtain ⟨rfl, same⟩ := staffed.unique theirs made (resolves_ends resolved)
    exact .inr ⟨index, worker, made, rfl, same ▸ answers⟩

theorem answersTo_of_allowed (made : MadeOn config cluster index worker)
    (allowed : Allowed config cluster target worker.name) : AnswersTo (config.node index) target worker.name := by
  rcases allowed with same | ⟨other, owner, theirs, same, answers⟩
  · exact .inl same
  · obtain ⟨rfl, _⟩ := staffed.unique theirs made ⟨[], by rw [same, nil_append]⟩
    exact answers

theorem emission_lands {act effects} (carried : AimedTraffic config next cluster)
    (untouched : Untouched cluster (.node index act))
    (recorded : (cluster.plug config index).turned act ⊆ next.broadcasts)
    (emission : Emission (config.plane index) (cluster.plug config index) act origin effects) :
    ∀ effect ∈ effects, AimedEffect config next origin effect := by
  cases emission with
  | submit =>
    intro effect member
    refine lands_of_plain fun single _ => ?_
    refine aimed_lands (Emits.outcome (send_keepsTarget single rfl (.inl rfl)) effect member) single ?_
    exact fun target sent => ⟨target, sent, .inl rfl⟩
  | @deliverDelayed _ copy _ fetched =>
    intro effect member
    refine lands_of_plain fun sent still => ?_
    obtain ⟨single, aimed⟩ := (carried.planes index).fetched copy (by simp [fetched]) ⟨sent, still⟩
    refine (Emits.outcome (deliverDelayed_keepsTarget single) effect member).imp ?_ fun _ => False.elim
    rintro msg ⟨here, mode, target⟩ -
    refine ⟨mode ▸ single, fun addressee sent => ?_⟩
    obtain ⟨name, named, allowed⟩ := aimed here addressee sent
    exact ⟨name, target.trans named, allowed⟩
  | @finish _ _ _ cell copy found hand =>
    refine processed_lands ((staffed.coherent index).cellOwned found).1 ((carried.planes index).inHand found hand)
      (untouched cell found copy hand) (Subset.trans ?_ recorded)
    simp [Plane.turned, found, hand]
  | @finishEphemeral _ _ _ run copy found =>
    intro effect member
    refine lands_of_plain fun sent still => ?_
    have spawned := (carried.planes index).ephemerals copy (mem_of_getElem? found) ⟨sent, still⟩
    have single : run.message.deliveryMode ≠ .broadcast := by
      intro broadcast
      exact still (recorded (by simp [Plane.turned, turned, found, broadcast]))
    refine aimed_lands (Emits.outcome (processMsg_keepsTarget copy.message rfl single) effect member) single ?_
    intro target sent
    cases spawned.2.symm.trans sent

theorem aimedTraffic_step (traffic : AimedTraffic config cluster cluster) (untouched : Untouched cluster event)
    (moved : Moves config cluster event next) : AimedTraffic config next next := by
  have carried := aimedTraffic_mono traffic moved
  obtain ⟨made, broadcasts⟩ := grows moved
  refine Traffic.step carried moved (fun _ _ _ moving plain => moving ⟨plain.sent, plain.still⟩) ?_ ?_ ?_ ?_
  · intro index ack send copy handle msg _ phase branch plain
    obtain ⟨member, rfl⟩ := planned_deliver branch
    obtain ⟨single, aimed⟩ := (traffic.planes index).inPhase phase rfl
      ⟨plain.sent, fun turned => plain.still (broadcasts turned)⟩
    refine ⟨single, Aimed.mono (fun target sent => ?_) made⟩
    obtain ⟨worker, own, same⟩ := cachedWorker_made staffed member
    obtain ⟨name, named, allowed⟩ := aimed target sent
    have resolved := planned_resolves branch named
    rw [← same] at resolved
    exact ⟨worker.name, congrArg some same.symm, allowed_resolved staffed own allowed resolved⟩
  · intro copy moving untargeted plain
    obtain ⟨single, aimed⟩ := moving plain
    refine ⟨single, Option.eq_none_iff_forall_not_mem.mpr fun target sent => ?_⟩
    obtain ⟨name, named, _⟩ := aimed target sent
    cases untargeted.symm.trans named
  · intro index act origin effects same emission
    subst same
    refine emission_lands staffed carried untouched ?_ emission
    cases moved
    exact subset_append_left _ _
  · intro place env run direct copy same found hand addressed
    subst same
    obtain ⟨_, _, _, own⟩ := staffed.directs direct (mem_of_getElem? found)
    refine processed_lands (by rw [own]; rfl) (carried.directs direct (mem_of_getElem? found) copy hand)
      (untouched direct found copy hand) ?_
    cases moved with
    | giveUp there holds misrouted | forward there holds misrouted =>
      cases found.symm.trans there
      cases hand.symm.trans holds
      cases addressed.symm.trans misrouted
    | process there holds =>
      cases found.symm.trans there
      cases hand.symm.trans holds
      exact subset_append_left _ _

theorem exclusive_of_aimed (traffic : AimedTraffic config cluster cluster) : Exclusive config cluster := by
  have owned (index : Nat) (cell : Cell) (member : cell ∈ (cluster.planes index).cells) : Owned (config.plane index) cell :=
    (staffed.coherent index).owned cell member
  refine ⟨?_, fun index cell member => (owned index cell member).2, ?_⟩
  · intro event index name copy target handles plain sent
    cases handles with
    | inbox index channel env run cell copy found hand =>
      have member := mem_of_getElem? found
      obtain ⟨name, named, allowed⟩ := ((traffic.planes index).inHand found hand plain).2 target sent
      cases ((owned index cell member).addressed hand).symm.trans named
      exact answersTo_of_allowed staffed (staffed.cells index cell member) allowed
    | ephemeral index place name env run copy found =>
      have spawned := (traffic.planes index).ephemerals copy (mem_of_getElem? found) plain
      cases spawned.2.symm.trans sent
    | direct place env run direct copy found hand addressed =>
      have member := mem_of_getElem? found
      obtain ⟨name, named, allowed⟩ := (traffic.directs direct member copy hand plain).2 target sent
      simp only [Worker.isMisrouted, named, decide_eq_false_iff_not, ne_eq, not_not] at addressed
      subst addressed
      exact answersTo_of_allowed staffed (staffed.directs direct member) allowed
  · exact fun index cell member copy hand => (owned index cell member).not_misrouted hand

end

end

/-- In every run in which middleware leaves `to_worker` alone, a message that
middleware has not made a broadcast is handled only by workers that answer to its
target. -/
theorem targeted_exclusive (config : ClusterConfig) (events : List ClusterEvent) (cluster : Cluster)
    (untouched : Along (Cluster.step config) Untouched {} events)
    (ran : run (Cluster.step config) {} events = some cluster) : Exclusive config cluster := by
  have invariant : Staffed config cluster ∧ AimedTraffic config cluster cluster := by
    refine run_invariant (fun reached => Staffed config reached ∧ AimedTraffic config reached reached) ?_ untouched
      ⟨staffed_init config, traffic_init config⟩ ran
    rintro reached event next untouched ⟨staffed, traffic⟩ stepped
    have moved := moves_of_step stepped
    exact ⟨staffed.step moved, aimedTraffic_step staffed traffic untouched moved⟩
  exact exclusive_of_aimed invariant.1 invariant.2

section

def twoNodes : ClusterConfig := { topic := "t", node := fun index => some (if index = 0 then "east" else "west") }

def uuids : Nat → String
  | 0 => "00000000-0000-0000-0000-000000000000"
  | _ => "11111111-1111-1111-1111-111111111111"

def hired (index : Nat) : List ClusterEvent := [.create index (uuids index) none, .node index (.register 0)]

def eastWorker : String := workerName (some "east") "t" (uuids 0)

def westWorker : String := workerName (some "west") "t" (uuids 1)

def order : EMessage := { EMessage.new "m" 0 "t" [] .standard none with toWorker := some ("worker-t-" ++ uuids 0) }

def listing : Env where
  nodeType := .host
  registry := ((∅ : Table WorkerInfo).insert eastWorker ⟨eastWorker, "t", 0⟩).insert westWorker ⟨westWorker, "t", 0⟩

def claimed (index : Nat) : List ClusterEvent :=
  [.claim, .loadGeneration, .readNames, .readInboxes].map (ClusterEvent.node index)

def delivered (index : Nat) : List ClusterEvent := [.act true true, .receive 0].map (ClusterEvent.node index)

def entered : List ClusterEvent :=
  List.flatten [hired 0, hired 1, [.node 0 (.submit listing order), .node 0 (.push 0)]]

def relayed : List ClusterEvent :=
  List.flatten [entered, claimed 1, [.node 1 (.act true true), .node 1 .resume], claimed 0, delivered 0]

def answered (mode : DeliveryMode) (answer : Ack) : ClusterEvent :=
  .node 0 (.finish 0 listing { answer, message := { order with toWorker := some eastWorker, deliveryMode := mode } })

def widened : List ClusterEvent :=
  List.flatten [entered, claimed 0, delivered 0, [answered .broadcast (.noAck (some 5) 3)],
    [.fetch 5, .deliverDelayed listing, .push 0].map (ClusterEvent.node 0), claimed 1, delivered 1]

end

theorem relayed_order_exclusive :
    ∃ cluster, run (Cluster.step twoNodes) {} relayed = some cluster ∧ Exclusive twoNodes cluster ∧
      ∃ cell ∈ (cluster.planes 0).cells, ∃ copy ∈ cell.hand, copy.origin = order := by
  have reached : ∃ cluster ∈ run (Cluster.step twoNodes) {} relayed,
      ∃ cell ∈ (cluster.planes 0).cells, ∃ copy ∈ cell.hand, copy.origin = order := by decide +kernel
  obtain ⟨cluster, ran, held⟩ := reached
  exact ⟨cluster, ran, targeted_exclusive twoNodes relayed cluster (by decide +kernel) ran, held⟩

/-- The retry of an order that middleware made a broadcast is fanned out to every
worker, the western one included. -/
theorem widened_order_shared :
    order.deliveryMode = .standard ∧ Along (Cluster.step twoNodes) Untouched {} widened ∧
      ∃ cluster, run (Cluster.step twoNodes) {} widened = some cluster ∧ ∃ event copy target,
        Handles cluster event 1 westWorker copy ∧ copy.message.topic = order.topic ∧ copy.origin = order ∧
          order.toWorker = some target ∧ ¬ AnswersTo (twoNodes.node 1) target westWorker := by
  have reached : ∃ cluster ∈ run (Cluster.step twoNodes) {} widened, ∃ cell ∈ (cluster.planes 1).cells[0]?,
      cell.worker.name = westWorker ∧ ∃ copy ∈ cell.hand, cell.worker.isMisrouted copy.message = false ∧
        copy.message.topic = order.topic ∧ copy.origin = order := by decide +kernel
  obtain ⟨cluster, ran, cell, found, same, copy, hand, addressed, topic, ours⟩ := reached
  have handles := Handles.inbox 1 0 listing ⟨.ack, copy.message, false⟩ cell copy found hand addressed
  rw [same] at handles
  exact ⟨rfl, by decide +kernel, cluster, ran, _, copy, _, handles, topic, ours, rfl, by decide +kernel⟩

end EventBase.Proofs.TargetExclusivity
