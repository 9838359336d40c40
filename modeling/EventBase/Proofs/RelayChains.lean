import EventBase.Proofs.ClusterSteps

/-! How often a message can be relayed on its way from node to node. -/

namespace EventBase.Proofs.RelayChains
open Foundations PlaneSteps PlaneCoherence PlaneTraffic TaskTraffic TaskLogic ClusterSteps DispatcherConservation Dispatcher

def Carries (effect : Effect) (msg : EMessage) : Prop :=
  (∃ topic, outgoing topic effect = some msg) ∨ scheduled effect = some msg

/-- The ways a message can take after it was sent as `origin`, whichever nodes and
workers handle it, and how often it was relayed. `admits` limits what the pipelines
of the workers may do. -/
inductive Chain (admits : Worker → PipelineRun → EMessage → Prop) (origin : EMessage) : Nat → EMessage → Prop
  | sent (env : Env) (destination : String) (effect : Effect) (msg : EMessage)
      (member : effect ∈ (TopicRouter.send env destination origin none none).outcome.1) (carries : Carries effect msg) :
      Chain admits origin 0 msg
  | relayed (config : PlaneConfig) (plane : Plane) (copy : Copy) (relays : Nat)
      (chain : Chain admits origin relays copy.message) (hops : Hops config plane copy) :
      Chain admits origin (relays + 1) copy.hop.message
  | stamped (config : PlaneConfig) (plane : Plane) (copy : Copy) (target : CachedWorker) (msg : EMessage) (relays : Nat)
      (chain : Chain admits origin relays copy.message) (branch : planned config plane copy = .deliver target msg) :
      Chain admits origin relays msg
  | due (env : Env) (effect : Effect) (msg next : EMessage) (relays : Nat) (chain : Chain admits origin relays msg)
      (member : effect ∈ (deliverDelayed env (WalRecord.fromMsg msg)).outcome.1) (carries : Carries effect next) :
      Chain admits origin relays next
  | handled (env : Env) (worker : Worker) (run : PipelineRun) (effect : Effect) (msg next : EMessage) (relays : Nat)
      (chain : Chain admits origin relays msg) (admitted : admits worker run msg)
      (member : effect ∈ (worker.processMsg env run msg).outcome.1) (carries : Carries effect next) :
      Chain admits origin relays next

/-- Middleware leaves `attempts` alone, and the increment of a retry does not wrap. -/
structure Honest (worker : Worker) (run : PipelineRun) (msg : EMessage) : Prop where
  kept : run.message.attempts = msg.attempts
  room : ∀ retryAfter maxRetries, worker.status run = .noAck retryAfter maxRetries → msg.attempts.toNat + 1 < 2 ^ 32

section
variable {floor : UInt32} {env : Env} {msg next : EMessage} {effect : Effect}

/-- What the effect puts anywhere has been tried at least `floor` times. -/
def Tried (floor : UInt32) (effect : Effect) : Prop :=
  ∀ topic, Lands topic (fun msg => floor ≤ msg.attempts) (fun msg => floor ≤ msg.attempts) effect

theorem Tried.carries (tried : Tried floor effect) (carries : Carries effect msg) : floor ≤ msg.attempts := by
  rcases carries with ⟨topic, out⟩ | later
  · exact (tried topic).outgoing msg out
  · exact (tried "").scheduled msg later

theorem send_tried (topic destination : String) (least : floor ≤ msg.attempts) :
    EmitsOnly (Lands topic (fun msg => floor ≤ msg.attempts) fun msg => floor ≤ msg.attempts)
      (TopicRouter.send env destination msg none none) :=
  send_lands (fun _ => least) (fun _ _ => least) fun _ _ _ _ => least

theorem attempts_le_succ {attempts : UInt32} (room : attempts.toNat + 1 < 2 ^ 32) : attempts ≤ attempts + 1 := by
  rw [UInt32.le_iff_toNat_le, UInt32.toNat_add]
  simp only [UInt32.toNat_one]
  omega

theorem sent_tried {destination} (member : effect ∈ (TopicRouter.send env destination msg none none).outcome.1) :
    Tried msg.attempts effect :=
  fun topic => Emits.outcome (send_tried topic destination (UInt32.le_refl _)) effect member

theorem due_tried (member : effect ∈ (deliverDelayed env (WalRecord.fromMsg msg)).outcome.1) :
    Tried msg.attempts effect := by
  intro topic
  have least : msg.attempts ≤ ({ msg with deliverAt := none } : EMessage).attempts := UInt32.le_refl _
  exact Emits.outcome (EmitsOnly.ignore (send_tried topic msg.topic least)) effect member

theorem handled_tried {worker run} (honest : Honest worker run msg)
    (member : effect ∈ (worker.processMsg env run msg).outcome.1) : Tried msg.attempts effect := by
  intro topic
  have kept : msg.attempts ≤ run.message.attempts := honest.kept ▸ UInt32.le_refl _
  have counted {retryAfter : Option Duration} {maxRetries : UInt32}
      (retry : worker.status run = .noAck retryAfter maxRetries) : msg.attempts ≤ run.message.attempts + 1 := by
    rw [honest.kept]
    exact attempts_le_succ (honest.room retryAfter maxRetries retry)
  refine Emits.outcome (processMsg_lands msg ⟨fun _ => kept, fun _ retry _ => counted retry, ?_, ?_, ?_⟩) effect member
  · exact fun _ _ _ retry _ => send_tried topic _ (counted retry)
  · exact fun _ _ retry _ => send_tried topic _ (counted retry)
  · exact fun _ _ => send_tried topic _ kept

end

section
variable {config : PlaneConfig} {plane : Plane} {copy : Copy}

theorem hops_budget (hops : Hops config plane copy) : copy.message.attempts < maxTargetedHops := by
  rw [← UInt32.not_le]
  cases hops with
  | relay msg branch => exact (planned_relay branch).hops
  | recv target targeted unknown budget => exact budget
  | forward worker misrouted routed =>
    intro spent
    simp [Worker.routeTargeted, spent] at routed

theorem hops_counts (hops : Hops config plane copy) :
    copy.hop.message.attempts.toNat = copy.message.attempts.toNat + 1 ∧ copy.message.attempts.toNat < 64 := by
  have below := UInt32.lt_iff_toNat_lt.mp (hops_budget hops)
  simp only [Copy.hop, UInt32.toNat_add, UInt32.toNat_one]
  simp only [maxTargetedHops, UInt32.reduceToNat] at below
  omega

end

theorem Chain.paid {origin msg relays} (chain : Chain Honest origin relays msg) :
    relays + min origin.attempts.toNat 64 ≤ min msg.attempts.toNat 64 := by
  induction chain with
  | sent env destination effect msg member carries =>
    have least := UInt32.le_iff_toNat_le.mp ((sent_tried member).carries carries)
    omega
  | relayed config plane copy relays chain hops paid =>
    have counts := hops_counts hops
    omega
  | stamped config plane copy target msg relays chain branch paid =>
    obtain ⟨-, rfl⟩ := planned_deliver branch
    exact paid
  | due env effect msg next relays chain member carries paid =>
    have least := UInt32.le_iff_toNat_le.mp ((due_tried member).carries carries)
    omega
  | handled env worker run effect msg next relays chain honest member carries paid =>
    have least := UInt32.le_iff_toNat_le.mp ((handled_tried honest member).carries carries)
    omega

structure Spent (copy : Copy) (target : String) : Prop where
  targeted : copy.message.toWorker = some target
  tries : maxTargetedHops ≤ copy.message.attempts

section
variable {config : PlaneConfig} {plane : Plane} {copy : Copy} {target : String} (spent : Spent copy target)
include spent

theorem Spent.act (workers : plane.dispatcher.cached ≠ [])
    (foreign : ∀ handle ∈ plane.dispatcher.cached, resolves config.node target handle.name = false) (ack send : Bool) :
    plane.act config copy ack send =
      some { plane with phase := .idle, claims := plane.unacked ack copy, dropped := plane.dropped ++ [copy] } := by
  have unmatched : localMatch config.node plane.dispatcher.cached copy.message.toWorker = none := by
    rw [spent.targeted, localMatch, Option.bind_some, List.find?_eq_none]
    intro handle member
    simp [foreign handle member]
  have expires : plan config.node plane.dispatcher.cached plane.dispatcher.cursor copy.message =
      (.expire, plane.dispatcher.cursor) := by
    cases cached : plane.dispatcher.cached with
    | nil => exact absurd cached workers
    | cons first rest =>
      rw [cached] at unmatched
      simp only [plan, unmatched]
      simp [spent.targeted, spent.tries]
  simp only [Plane.act, expires]

theorem Spent.recv (unknown : plane.indexed config target = false) (rest : List Copy) (idle sent ack : Bool) :
    plane.recv config copy rest idle sent ack =
      { plane with queue := rest, claims := plane.unacked ack copy, dropped := plane.dropped ++ [copy] } := by
  have elsewhere : Plane.indexed config { plane with queue := rest, claims := plane.unacked ack copy } target = false := unknown
  simp only [Plane.recv, spent.targeted, elsewhere, spent.tries, if_true, if_false, Bool.false_eq_true]

theorem Spent.routeTargeted : Worker.routeTargeted copy.message = none := by
  simp [Worker.routeTargeted, spent.tries]

theorem Spent.finish {cell} (misrouted : cell.worker.isMisrouted copy.message = true) (channel : Nat) (env : Env)
    (run : PipelineRun) :
    plane.finish config channel cell copy env run =
      { plane.setCell channel { cell with hand := none } with dropped := plane.dropped ++ [copy] } := by
  simp only [Plane.finish, misrouted, if_true, spent.routeTargeted]
  rfl

theorem Spent.process {config cluster direct} (misrouted : direct.worker.isMisrouted copy.message = true) (place : Nat)
    (env : Env) (run : PipelineRun) :
    cluster.process config place direct copy env run = emptied cluster place direct := by
  simp only [Cluster.process, misrouted, if_true, spent.routeTargeted]
  rfl

end

def Admitted (admits : Worker → PipelineRun → EMessage → Prop) (config : ClusterConfig) (cluster : Cluster) :
    ClusterEvent → Prop
  | .node index (.finish channel _ run) => ∀ cell ∈ (cluster.planes index).cells[channel]?, ∀ copy ∈ cell.hand,
      admits cell.worker run copy.message
  | .node index (.finishEphemeral place name _ run) => ∀ copy ∈ (cluster.planes index).ephemerals[place]?,
      admits { topic := config.topic, name } run copy.message
  | .process place _ run => ∀ direct ∈ cluster.directs[place]?, ∀ copy ∈ direct.hand, admits direct.worker run copy.message
  | _ => True

section
variable {admits : Worker → PipelineRun → EMessage → Prop} {config : ClusterConfig} {cluster next : Cluster}
  {event : ClusterEvent}

def Chained (admits : Worker → PipelineRun → EMessage → Prop) (copy : Copy) : Prop :=
  ∃ relays, Chain admits copy.origin relays copy.message

abbrev ChainedTraffic (admits : Worker → PipelineRun → EMessage → Prop) : ClusterConfig → Cluster → Prop :=
  Traffic (Chained admits) (Chained admits) (Chained admits)

theorem lands_chained {topic origin effect} (chained : ∀ msg, Carries effect msg → Chained admits ⟨msg, origin⟩) :
    Lands topic (fun msg => Chained admits ⟨msg, origin⟩) (fun msg => Chained admits ⟨msg, origin⟩) effect :=
  ⟨fun msg sent => chained msg (.inl ⟨topic, sent⟩), fun msg later => chained msg (.inr later)⟩

theorem handled_chained {topic worker env run copy} (chained : Chained admits copy)
    (admitted : admits worker run copy.message) :
    ∀ effect ∈ (worker.processMsg env run copy.message).outcome.1,
      Lands topic (fun msg => Chained admits ⟨msg, copy.origin⟩) (fun msg => Chained admits ⟨msg, copy.origin⟩) effect := by
  intro effect member
  obtain ⟨relays, chain⟩ := chained
  exact lands_chained fun msg carries => ⟨relays, .handled env worker run effect _ msg relays chain admitted member carries⟩

theorem chainedTraffic_step (traffic : ChainedTraffic admits config cluster) (admitted : Admitted admits config cluster event)
    (moved : Moves config cluster event next) : ChainedTraffic admits config next := by
  refine Traffic.step traffic moved ?_ ?_ (fun _ chained _ => chained) ?_ ?_
  · rintro index copy hops ⟨relays, chain⟩
    exact ⟨relays + 1, .relayed _ _ copy relays chain hops⟩
  · intro index ack send copy target msg _ phase branch
    obtain ⟨relays, chain⟩ := (traffic.planes index).inPhase phase rfl
    exact ⟨relays, .stamped _ _ copy target msg relays chain branch⟩
  · rintro index act origin effects rfl emission
    cases emission with
    | @submit env =>
      exact fun effect member => lands_chained fun msg carries => ⟨0, .sent env _ effect msg member carries⟩
    | @deliverDelayed env copy _ fetched =>
      obtain ⟨relays, chain⟩ := (traffic.planes index).fetched copy (by simp [fetched])
      exact fun effect member => lands_chained fun msg carries =>
        ⟨relays, .due env effect copy.message msg relays chain member carries⟩
    | @finish _ _ _ cell copy found hand =>
      exact handled_chained ((traffic.planes index).inHand found hand) (admitted cell found copy hand)
    | @finishEphemeral _ _ _ _ copy found =>
      exact handled_chained ((traffic.planes index).ephemerals copy (List.mem_of_getElem? found)) (admitted copy found)
  · rintro place env run direct copy rfl found hand _
    exact handled_chained (traffic.directs direct (List.mem_of_getElem? found) copy hand) (admitted direct found copy hand)

end

/-- Relaying ends: chains account for every message of every run, the relays along
a chain are bounded by the tries the message was sent with, a relay's increment does
not wrap, and whoever does not find the target of a spent message among the workers
it has acknowledges the message and puts nothing back. -/
structure RelaysEnd (config : ClusterConfig) : Prop where
  covered : ∀ admits events cluster, Along (Cluster.step config) (Admitted admits config) {} events →
    run (Cluster.step config) {} events = some cluster → ChainedTraffic admits config cluster
  bounded : ∀ origin relays msg, Chain Honest origin relays msg → relays ≤ 64 - min origin.attempts.toNat 64
  counted : ∀ index plane copy, Hops (config.plane index) plane copy →
    copy.hop.message.attempts.toNat = copy.message.attempts.toNat + 1
  dispatcher : ∀ index (plane : Plane) copy target ack send, Spent copy target → plane.dispatcher.cached ≠ [] →
    (∀ handle ∈ plane.dispatcher.cached, resolves (config.node index) target handle.name = false) →
    plane.act (config.plane index) copy ack send =
      some { plane with phase := .idle, claims := plane.unacked ack copy, dropped := plane.dropped ++ [copy] }
  recv : ∀ index (plane : Plane) copy target rest idle sent ack, Spent copy target →
    plane.indexed (config.plane index) target = false → plane.recv (config.plane index) copy rest idle sent ack =
      { plane with queue := rest, claims := plane.unacked ack copy, dropped := plane.dropped ++ [copy] }
  inbox : ∀ index (plane : Plane) copy target channel (cell : Cell) env run, Spent copy target →
    cell.worker.isMisrouted copy.message = true → plane.finish (config.plane index) channel cell copy env run =
      { plane.setCell channel { cell with hand := none } with dropped := plane.dropped ++ [copy] }
  direct : ∀ (cluster : Cluster) copy target place (direct : DirectWorker) env run, Spent copy target →
    direct.worker.isMisrouted copy.message = true →
    cluster.process config place direct copy env run = emptied cluster place direct

section

def lone : PlaneConfig := { node := none, topic := "t" }

def host : Env := { nodeType := .host, registry := ∅ }

def worker : Worker := { topic := "t", name := "w" }

def order (attempts : UInt32) : EMessage :=
  { EMessage.new "m" 0 "t" [] .standard none with toWorker := some "w", attempts }

def elsewhere : Plane := { dispatcher := { cached := [⟨"v", 0⟩] } }

def retry (attempts : UInt32) : PipelineRun := { answer := .noAck none 100, message := order attempts }

end

theorem order_relayed_after_retry {admits} (attempts reset : UInt32)
    (sent : Effect.publish (order attempts) ∈ (TopicRouter.send host "t" (order attempts) none none).outcome.1)
    (admitted : admits worker (retry reset) (order attempts))
    (handled : Effect.requeue (order (reset + 1)) ∈ (worker.processMsg host (retry reset) (order attempts)).outcome.1)
    (branch : planned lone elsewhere ⟨order (reset + 1), order attempts⟩ = .relay (order (reset + 1 + 1))) :
    Chain admits (order attempts) 1 (order (reset + 1 + 1)) := by
  have entered : Chain admits (order attempts) 0 (order attempts) := .sent host "t" _ _ sent (.inl ⟨"t", rfl⟩)
  have retried := Chain.handled host worker (retry reset) _ _ _ 0 entered admitted handled (.inl ⟨"t", rfl⟩)
  exact .relayed lone elsewhere ⟨order (reset + 1), order attempts⟩ 0 retried (.relay _ branch)

end EventBase.Proofs.RelayChains
