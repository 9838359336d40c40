import EventBase.Cluster
import EventBase.Proofs.PlaneTraffic

/-! Everything a step of the cluster can do, and the rules that lift what is known
of one node to all of them. -/

namespace EventBase.Proofs.ClusterSteps
open Foundations PlaneSteps PlaneCoherence PlaneTraffic TaskTraffic List Cluster

variable {target uuid : String} {index other : Nat} {rival : Worker}

theorem workerName_ends (node : Option String) (topic uuid : String) :
    ∃ front, (workerName node topic uuid).toList = front ++ uuid.toList := by
  cases node with
  | none => exact ⟨("worker-" ++ topic ++ "-").toList, by simp [workerName]⟩
  | some node => exact ⟨(node ++ "@" ++ ("worker-" ++ topic ++ "-")).toList, by simp [workerName]⟩

theorem resolves_ends {node name} (resolved : resolves node target name = true) :
    ∃ front, name.toList = front ++ target.toList := by
  simp only [resolves, Bool.or_eq_true, beq_iff_eq] at resolved
  rcases resolved with rfl | qualified
  · exact ⟨[], rfl⟩
  · cases node with
    | none => cases qualified
    | some node => exact ⟨(node ++ "@").toList, by simp [eq_of_beq qualified]⟩

theorem target_ends {node topic} (resolved : resolves node target (workerName node topic uuid) = true) :
    ∃ front, target.toList = front ++ uuid.toList := by
  simp only [resolves, Bool.or_eq_true, beq_iff_eq] at resolved
  rcases resolved with rfl | qualified
  · exact workerName_ends node topic uuid
  · cases node with
    | none => cases qualified
    | some node =>
      have same := eq_of_beq qualified
      simp only [workerName, ← String.toList_inj, String.toList_append, append_cancel_left_eq] at same
      exact ⟨_, same.symm⟩

section
variable (config : ClusterConfig) (cluster : Cluster)

def made (index : Nat) (uuid : String) (timeOut : Option Duration) : Worker :=
  { topic := config.topic, name := workerName (config.node index) config.topic uuid, timeOut }

def emptied (place : Nat) (direct : DirectWorker) : Cluster := cluster.setDirect place { direct with hand := none }

inductive Moves : ClusterEvent → Cluster → Prop
  | node {index event plane} (ordinary : ∀ name timeOut, event ≠ .create name timeOut)
      (stepped : Step (config.plane index) (cluster.plug config index) event plane) :
      Moves (.node index event)
        { cluster.unplug config index plane with
          broadcasts := (cluster.plug config index).turned event ++ cluster.broadcasts }
  | create {index uuid timeOut plane} (fresh : cluster.isFresh uuid = true)
      (stepped : Step (config.plane index) (cluster.plug config index)
        (.create (workerName (config.node index) config.topic uuid) timeOut) plane) :
      Moves (.create index uuid timeOut)
        { cluster.unplug config index plane with made := (index, uuid) :: cluster.made }
  | steal {index victim copy} (idle : (cluster.planes index).phase = .idle)
      (held : (cluster.planes victim).phase.unsettled = some copy) :
      Moves (.steal index victim) (cluster.unplug config index { cluster.plug config index with phase := .claimed copy })
  | startDirect {index uuid timeOut} (fresh : cluster.isFresh uuid = true) :
      Moves (.startDirect index uuid timeOut)
        { cluster with
          directs := cluster.directs ++ [{ node := index, worker := made config index uuid timeOut }]
          made := (index, uuid) :: cluster.made }
  | receive {place ack direct copy rest}
      (found : cluster.directs[place]? = some direct) (queue : cluster.queue = copy :: rest) :
      Moves (.receive place ack)
        { cluster.setDirect place { direct with hand := some copy } with
          queue := rest, claims := if ack then cluster.claims else cluster.claims ++ [copy] }
  | giveUp {place env run direct copy}
      (found : cluster.directs[place]? = some direct) (hand : direct.hand = some copy)
      (misrouted : direct.worker.isMisrouted copy.message = true) :
      Moves (.process place env run) (emptied cluster place direct)
  | forward {place env run direct copy}
      (found : cluster.directs[place]? = some direct) (hand : direct.hand = some copy)
      (misrouted : direct.worker.isMisrouted copy.message = true)
      (routed : Worker.routeTargeted copy.message = some copy.hop.message) :
      Moves (.process place env run)
        ((emptied cluster place direct).unplug config direct.node
          { (emptied cluster place direct).plug config direct.node with
            outbox := ((emptied cluster place direct).plug config direct.node).outbox ++ [copy.hop] })
  | process {place env run direct copy}
      (found : cluster.directs[place]? = some direct) (hand : direct.hand = some copy)
      (addressed : direct.worker.isMisrouted copy.message = false) :
      Moves (.process place env run)
        { (emptied cluster place direct).unplug config direct.node
            (((emptied cluster place direct).plug config direct.node).apply (config.plane direct.node)
              (direct.worker.processMsg env run copy.message).outcome.1 copy.origin) with
          broadcasts := turned (some copy) run ++ cluster.broadcasts }
  | stopDirect {place direct} (found : cluster.directs[place]? = some direct) :
      Moves (.stopDirect place) (cluster.setDirect place { direct with stopped := true, hand := none })

end

section
variable {config : ClusterConfig} {cluster next : Cluster}

private theorem node_sound {event} (ordinary : ∀ name timeOut, event ≠ .create name timeOut)
    (stepped : (((cluster.plug config index).step (config.plane index) event).map fun plane =>
      { cluster.unplug config index plane with
        broadcasts := (cluster.plug config index).turned event ++ cluster.broadcasts }) = some next) :
    Moves config cluster (.node index event) next := by
  obtain ⟨plane, moved, rfl⟩ := Option.map_eq_some_iff.mp stepped
  exact .node ordinary (step_sound moved)

private theorem process_sound {place env run direct copy} (found : cluster.directs[place]? = some direct)
    (hand : direct.hand = some copy) :
    Moves config cluster (.process place env run) (cluster.process config place direct copy env run) := by
  simp only [process]
  split
  · next misrouted =>
    split
    · exact .giveUp found hand misrouted
    · next routed => exact .forward found hand misrouted (routeTargeted_some routed)
  · next addressed => exact .process found hand (Bool.eq_false_iff.mpr addressed)

theorem moves_of_step {event} (stepped : cluster.step config event = some next) :
    Moves config cluster event next := by
  revert stepped
  fun_cases step config cluster event
  all_goals intro stepped
  all_goals try cases stepped
  · next ordinary => exact node_sound ordinary stepped
  · next fresh =>
    obtain ⟨plane, moved, rfl⟩ := Option.map_eq_some_iff.mp stepped
    exact .create fresh (step_sound moved)
  · next held idle => exact .steal idle held
  · next fresh _ => exact .startDirect fresh
  · next queue found _ => exact .receive found queue
  · next found _ hand _ => exact process_sound found hand
  · next found => exact .stopDirect found

end

section
variable {config : ClusterConfig} {cluster next : Cluster} {event : ClusterEvent}

theorem plug_unplug_self (index : Nat) (plane : Plane) :
    (cluster.unplug config index plane).plug config index = plane := by
  simp only [plug, unplug, if_true]

theorem plug_unplug_other (plane : Plane) (different : other ≠ index) :
    (cluster.unplug config index plane).plug config other =
      { cluster.plug config other with
        queue := plane.queue
        claims := plane.claims
        delays := if config.wal other = config.wal index then plane.delays else cluster.stores (config.wal other) } := by
  simp only [plug, unplug, if_neg different]

inductive Changes (config : ClusterConfig) (cluster next : Cluster) (index : Nat) : Prop
  | still (same : next.planes index = cluster.planes index)
  | stepped (act : PlaneEvent) (plane : Plane) (step : Step (config.plane index) (cluster.plug config index) act plane)
      (planes : next.planes index = plane) (queue : next.queue = plane.queue)
  | stole (copy : Copy) (idle : (cluster.planes index).phase = .idle)
      (outbox : (next.planes index).outbox = (cluster.planes index).outbox)
  | grew (phase : (next.planes index).phase = (cluster.planes index).phase)
      (outbox : (cluster.planes index).outbox ⊆ (next.planes index).outbox)

theorem changes_of_moves (moved : Moves config cluster event next) (index : Nat) : Changes config cluster next index := by
  cases moved with
  | @node place _ plane _ stepped | @create place _ _ plane _ stepped =>
    by_cases same : index = place
    · subst same
      exact .stepped _ plane stepped (if_pos rfl) rfl
    · exact .still (if_neg same)
  | @steal place _ copy idle =>
    by_cases same : index = place
    · subst same
      exact .stole copy idle (by simp [unplug, plug])
    · exact .still (if_neg same)
  | @forward _ _ _ direct =>
    by_cases same : index = direct.node
    · subst same
      exact .grew (by simp [unplug, plug, emptied, setDirect])
        (by simp [unplug, plug, emptied, setDirect])
    · exact .still (if_neg same)
  | @process _ _ _ direct =>
    by_cases same : index = direct.node
    · subst same
      exact .grew (by simp [unplug, plug, emptied, setDirect, Plane.apply])
        (by simp [unplug, plug, emptied, setDirect, Plane.apply])
    · exact .still (if_neg same)
  | startDirect | receive | giveUp | stopDirect => exact .still rfl

theorem coherent_plug (coherent : Coherent (config.plane index) (cluster.planes index)) :
    Coherent (config.plane index) (cluster.plug config index) :=
  ⟨coherent.wired, coherent.fresh, coherent.owned⟩

def MadeOn (config : ClusterConfig) (cluster : Cluster) (index : Nat) (worker : Worker) : Prop :=
  ∃ uuid timeOut, (index, uuid) ∈ cluster.made ∧ worker = made config index uuid timeOut

/-- Who works in the cluster: every worker has a name of its own, and every node's
maps and inboxes are coherent. -/
structure Staffed (config : ClusterConfig) (cluster : Cluster) : Prop where
  lengths : ∀ entry ∈ cluster.made, entry.2.length = uuidLength
  distinct : ∀ first ∈ cluster.made, ∀ second ∈ cluster.made, first.2 = second.2 → first = second
  cells : ∀ index, ∀ cell ∈ (cluster.planes index).cells, MadeOn config cluster index cell.worker
  directs : ∀ direct ∈ cluster.directs, MadeOn config cluster direct.node direct.worker
  coherent : ∀ index, Coherent (config.plane index) (cluster.planes index)

theorem staffed_init (config : ClusterConfig) : Staffed config {} where
  lengths := by simp
  distinct := by simp
  cells := by simp
  directs := by simp
  coherent := fun index => .initial (config.plane index)

section
variable (staffed : Staffed config cluster)
include staffed

theorem Staffed.unplug (plane : Plane)
    (cells : ∀ cell ∈ plane.cells, MadeOn config cluster index cell.worker)
    (coherent : Coherent (config.plane index) plane) : Staffed config (cluster.unplug config index plane) := by
  refine { staffed with cells := ?_, coherent := ?_ }
  · intro other cell member
    simp only [Cluster.unplug] at member
    split at member
    · next same =>
      subst same
      exact cells cell member
    · exact staffed.cells other cell member
  · intro other
    simp only [Cluster.unplug]
    split
    · next same =>
      subst same
      exact coherent
    · exact staffed.coherent other

theorem Staffed.setDirect {place direct} (updated : DirectWorker) (found : cluster.directs[place]? = some direct)
    (node : updated.node = direct.node) (worker : updated.worker = direct.worker) :
    Staffed config (cluster.setDirect place updated) := by
  refine { staffed with directs := ?_ }
  intro one member
  rcases mem_or_eq_of_mem_set member with old | rfl
  · exact staffed.directs one old
  · rw [node, worker]
    exact staffed.directs direct (mem_of_getElem? found)

theorem Staffed.add (index : Nat) (fresh : cluster.isFresh uuid = true) :
    Staffed config { cluster with made := (index, uuid) :: cluster.made } := by
  simp only [isFresh, Bool.and_eq_true, decide_eq_true_eq, all_eq_true] at fresh
  have grown {node : Nat} {worker : Worker} (made : MadeOn config cluster node worker) :
      MadeOn config { cluster with made := (index, uuid) :: cluster.made } node worker := by
    obtain ⟨own, timeOut, member, same⟩ := made
    exact ⟨own, timeOut, mem_cons_of_mem _ member, same⟩
  refine ⟨?_, ?_, fun node cell member => grown (staffed.cells node cell member),
    fun direct member => grown (staffed.directs direct member), staffed.coherent⟩
  · exact forall_mem_cons.mpr ⟨fresh.1, staffed.lengths⟩
  · intro first left second right same
    rcases mem_cons.mp left with rfl | earlier <;> rcases mem_cons.mp right with rfl | later
    · rfl
    · exact absurd same.symm (fresh.2 second later)
    · exact absurd same (fresh.2 first earlier)
    · exact staffed.distinct first earlier second later same

theorem Staffed.step (moved : Moves config cluster event next) : Staffed config next := by
  cases moved with
  | @node index _ plane ordinary stepped =>
    have before : ∀ cell ∈ (cluster.plug config index).cells, MadeOn config cluster index cell.worker := staffed.cells index
    have cells := workers_step (MadeOn config cluster index) before
      (fun name timeOut same => absurd same (ordinary name timeOut)) stepped
    exact { staffed.unplug plane cells ((coherent_plug (staffed.coherent index)).step stepped) with }
  | @create index uuid timeOut plane fresh stepped =>
    have more := staffed.add index fresh
    have before : ∀ cell ∈ (cluster.plug config index).cells,
        MadeOn config { cluster with made := (index, uuid) :: cluster.made } index cell.worker := more.cells index
    have cells := workers_step (MadeOn config { cluster with made := (index, uuid) :: cluster.made } index) before
      (by rintro name timeOut ⟨⟩; exact ⟨uuid, _, mem_cons_self, rfl⟩) stepped
    exact { more.unplug plane cells ((coherent_plug (staffed.coherent index)).step stepped) with }
  | @steal index _ _ idle held =>
    have coherent := staffed.coherent index
    refine staffed.unplug _ (staffed.cells index) ⟨coherent.wired, ?_, coherent.owned⟩
    exact coherent.fresh.settle (by simp) (by simp)
  | @startDirect index uuid timeOut fresh =>
    have more := staffed.add index fresh
    refine { more with directs := forall_mem_append.mpr ⟨more.directs, forall_mem_singleton.mpr ?_⟩ }
    exact ⟨uuid, timeOut, mem_cons_self, rfl⟩
  | @receive _ _ direct copy _ found queue => exact { staffed.setDirect { direct with hand := some copy } found rfl rfl with }
  | giveUp found => exact staffed.setDirect _ found rfl rfl
  | @forward place _ _ direct _ found =>
    have put : Staffed config (emptied cluster place direct) := staffed.setDirect _ found rfl rfl
    have coherent := put.coherent direct.node
    exact put.unplug _ (put.cells direct.node) ⟨coherent.wired, coherent.fresh, coherent.owned⟩
  | @process place env run direct copy found =>
    have put : Staffed config (emptied cluster place direct) := staffed.setDirect _ found rfl rfl
    have coherent := put.coherent direct.node
    have applied := put.unplug
      (((emptied cluster place direct).plug config direct.node).apply (config.plane direct.node)
        (direct.worker.processMsg env run copy.message).outcome.1 copy.origin)
      (put.cells direct.node) ⟨coherent.wired, coherent.fresh, coherent.owned⟩
    exact { applied with }
  | stopDirect found => exact staffed.setDirect _ found rfl rfl

theorem Staffed.uuid_unique (listed : (index, uuid) ∈ cluster.made)
    (theirs : MadeOn config cluster other rival) (ends : ∃ front, rival.name.toList = front ++ uuid.toList) :
    other = index ∧ ∃ timeOut, rival = made config index uuid timeOut := by
  obtain ⟨second, timeOut, present, rfl⟩ := theirs
  obtain ⟨front, ends⟩ := ends
  obtain ⟨right, tail⟩ := workerName_ends (config.node other) config.topic second
  have lengths : second.toList.length = uuid.toList.length := by
    rw [String.length_toList, String.length_toList, staffed.lengths _ present, staffed.lengths _ listed]
  have same : second = uuid := String.toList_injective (append_inj' (tail.symm.trans ends) lengths).2
  subst same
  cases staffed.distinct _ present _ listed rfl
  exact ⟨rfl, timeOut, rfl⟩

theorem Staffed.unique {worker} (mine : MadeOn config cluster index worker) (theirs : MadeOn config cluster other rival)
    (ends : ∃ front, rival.name.toList = front ++ worker.name.toList) : other = index ∧ rival.name = worker.name := by
  obtain ⟨uuid, _, listed, rfl⟩ := mine
  obtain ⟨front, ends⟩ := ends
  obtain ⟨left, head⟩ := workerName_ends (config.node index) config.topic uuid
  have ends : rival.name.toList = (front ++ left) ++ uuid.toList := by
    rw [ends, made, head, append_assoc]
  obtain ⟨rfl, _, rfl⟩ := staffed.uuid_unique listed theirs ⟨_, ends⟩
  exact ⟨rfl, rfl⟩

theorem Staffed.resolves_unique {worker} (mine : MadeOn config cluster index worker)
    (resolved : resolves (config.node index) target worker.name = true) (theirs : MadeOn config cluster other rival)
    (claimed : resolves (config.node other) target rival.name = true) :
    other = index ∧ rival.name = worker.name := by
  obtain ⟨uuid, _, listed, rfl⟩ := mine
  obtain ⟨front, tail⟩ := target_ends resolved
  obtain ⟨left, ends⟩ := resolves_ends claimed
  have ends : rival.name.toList = (left ++ front) ++ uuid.toList := by
    rw [ends, tail, append_assoc]
  obtain ⟨rfl, _, rfl⟩ := staffed.uuid_unique listed theirs ⟨_, ends⟩
  exact ⟨rfl, rfl⟩

end

theorem staffed_reached {config events cluster} (ran : run (step config) {} events = some cluster) :
    Staffed config cluster :=
  run_preserves (Staffed config) (fun staffed stepped => staffed.step (moves_of_step stepped)) (staffed_init config) ran

/-- The messages on their way in the whole cluster. -/
structure Traffic (moving delayed spawned : Copy → Prop) (config : ClusterConfig) (cluster : Cluster) : Prop where
  planes : ∀ index, Throughout moving delayed spawned (cluster.plug config index)
  directs : ∀ direct ∈ cluster.directs, ∀ copy ∈ direct.hand, moving copy

section
variable {moving delayed spawned : Copy → Prop}

theorem traffic_init (config : ClusterConfig) : Traffic moving delayed spawned config {} where
  planes := fun index => by constructor <;> simp [plug, Phase.copies]
  directs := by simp

variable (traffic : Traffic moving delayed spawned config cluster)
include traffic

theorem Traffic.imp {moving' delayed' spawned'} (moves : ∀ copy, moving copy → moving' copy)
    (delays : ∀ copy, delayed copy → delayed' copy) (spawns : ∀ copy, spawned copy → spawned' copy) :
    Traffic moving' delayed' spawned' config cluster where
  planes index := (traffic.planes index).imp moves delays spawns
  directs direct member copy held := moves copy (traffic.directs direct member copy held)

theorem Traffic.unplug (plane : Plane) (every : Throughout moving delayed spawned plane) :
    Traffic moving delayed spawned config (cluster.unplug config index plane) := by
  refine ⟨fun other => ?_, traffic.directs⟩
  by_cases same : other = index
  · subst same
    rw [plug_unplug_self]
    exact every
  · rw [plug_unplug_other plane same]
    have before := traffic.planes other
    refine { before with queue := every.queue, claims := every.claims, delays := ?_ }
    intro copy member
    simp only at member
    split at member
    · exact every.delays copy member
    · exact before.delays copy member

theorem Traffic.setDirect (place : Nat) (updated : DirectWorker) (held : ∀ copy ∈ updated.hand, moving copy) :
    Traffic moving delayed spawned config (cluster.setDirect place updated) := by
  refine ⟨traffic.planes, fun one member => ?_⟩
  rcases mem_or_eq_of_mem_set member with old | rfl
  · exact traffic.directs one old
  · exact held

theorem Traffic.unsettled {copy} (held : (cluster.planes index).phase.unsettled = some copy) :
    moving copy := by
  refine (traffic.planes index).phase copy ?_
  change copy ∈ (cluster.planes index).phase.copies
  cases phase : (cluster.planes index).phase <;> rw [phase] at held <;> cases held <;> simp [Phase.copies]

theorem Traffic.step (moved : Moves config cluster event next)
    (hops : ∀ index copy, Hops (config.plane index) (cluster.plug config index) copy → moving copy → moving copy.hop)
    (delivers : ∀ index ack send copy target msg, event = .node index (.act ack send) →
      (cluster.plug config index).phase = .ready copy →
      planned (config.plane index) (cluster.plug config index) copy = .deliver target msg → moving ⟨msg, copy.origin⟩)
    (spawns : ∀ copy, moving copy → copy.message.toWorker = none → spawned copy)
    (lands : ∀ index act origin effects, event = .node index act →
      Emission (config.plane index) (cluster.plug config index) act origin effects → ∀ effect ∈ effects,
      Lands config.topic (fun msg => moving ⟨msg, origin⟩) (fun msg => delayed ⟨msg, origin⟩) effect)
    (processes : ∀ place env run direct copy, event = .process place env run →
      cluster.directs[place]? = some direct → direct.hand = some copy → direct.worker.isMisrouted copy.message = false →
      ∀ effect ∈ (direct.worker.processMsg env run copy.message).outcome.1,
      Lands config.topic (fun msg => moving ⟨msg, copy.origin⟩) (fun msg => delayed ⟨msg, copy.origin⟩) effect) :
    Traffic moving delayed spawned config next := by
  cases moved with
  | @node index act plane ordinary stepped =>
    have every := (traffic.planes index).step stepped (hops index)
      (fun ack send copy target msg same => delivers index ack send copy target msg (by rw [same])) spawns
      (fun origin effects => lands index act origin effects rfl)
    exact { traffic.unplug plane every with }
  | @create index _ _ plane fresh stepped =>
    have every := (traffic.planes index).step stepped (hops index) (by rintro _ _ _ _ _ ⟨⟩) spawns
      (by rintro _ _ ⟨⟩)
    exact { traffic.unplug plane every with }
  | @steal index _ _ idle held =>
    refine traffic.unplug _ { traffic.planes index with phase := ?_ }
    exact forall_mem_singleton.mpr (traffic.unsettled held)
  | startDirect fresh =>
    refine ⟨traffic.planes, forall_mem_append.mpr ⟨traffic.directs, forall_mem_singleton.mpr ?_⟩⟩
    simp
  | @receive place ack direct copy rest found queue =>
    have all := (traffic.planes 0).queue
    rw [show (cluster.plug config 0).queue = copy :: rest from queue] at all
    have moves := all copy mem_cons_self
    have taken := traffic.setDirect place { direct with hand := some copy } (by rintro _ ⟨⟩; exact moves)
    refine ⟨fun index => ?_, taken.directs⟩
    have claims : ∀ held ∈ (cluster.plug config index).unacked ack copy, moving held :=
      (traffic.planes index).unacked moves
    exact { taken.planes index with
      queue := fun held member => all held (mem_cons_of_mem _ member)
      claims := claims }
  | @giveUp place _ _ _ _ found => exact traffic.setDirect place _ (by simp)
  | @forward place _ _ direct copy found hand misrouted routed =>
    have put : Traffic moving delayed spawned config (emptied cluster place direct) := traffic.setDirect place _ (by simp)
    have hop := hops direct.node copy (.forward direct.worker misrouted routed)
      (traffic.directs direct (mem_of_getElem? found) copy hand)
    refine put.unplug _ { put.planes direct.node with outbox := ?_ }
    exact forall_mem_append.mpr ⟨(put.planes direct.node).outbox, forall_mem_singleton.mpr hop⟩
  | @process place env run direct copy found hand addressed =>
    have put : Traffic moving delayed spawned config (emptied cluster place direct) := traffic.setDirect place _ (by simp)
    have every : Throughout moving delayed spawned
        (((emptied cluster place direct).plug config direct.node).apply (config.plane direct.node)
          (direct.worker.processMsg env run copy.message).outcome.1 copy.origin) :=
      (put.planes direct.node).apply (processes place env run direct copy rfl found hand addressed)
    exact { put.unplug _ every with }
  | @stopDirect place _ found => exact traffic.setDirect place _ (by simp)

end

end

end EventBase.Proofs.ClusterSteps
