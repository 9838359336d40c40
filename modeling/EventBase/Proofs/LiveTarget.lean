import EventBase.Proofs.TargetExclusivity

/-! What the nodes may do with a message for a worker of one of them. -/

namespace EventBase.Proofs.LiveTarget
open Foundations PlaneSteps PlaneCoherence ClusterSteps DispatcherConservation Dispatcher List

def Meant (config : ClusterConfig) (cluster : Cluster) (copy : Copy) (index channel : Nat) : Prop :=
  ∃ cell ∈ (cluster.planes index).cells[channel]?, ∃ target ∈ copy.message.toWorker,
    resolves (config.node index) target cell.worker.name = true

instance (config : ClusterConfig) (cluster : Cluster) (copy : Copy) (index channel : Nat) :
    Decidable (Meant config cluster copy index channel) :=
  inferInstanceAs (Decidable (∃ cell ∈ (cluster.planes index).cells[channel]?, ∃ target ∈ copy.message.toWorker,
    resolves (config.node index) target cell.worker.name = true))

/-- The node acknowledges its claim on the message: its dispatcher does when it acts
and does not go on to nack, its recv loop after it has passed the message on. -/
inductive Acknowledges (cluster next : Cluster) (copy : Copy) (claimant : Nat) : ClusterEvent → Prop
  | dispatcher (send : Bool) (phase : (cluster.planes claimant).phase = .ready copy)
      (settled : (next.planes claimant).phase ≠ .nacking copy) :
      Acknowledges cluster next copy claimant (.node claimant (.act true send))
  | recv (idle sent : Bool) (rest : List Copy) (queue : cluster.queue = copy :: rest) :
      Acknowledges cluster next copy claimant (.node claimant (.recv idle sent true))

/-- The worker has the message in its inbox, or the claimant sends it to the queue. -/
inductive Saved (cluster next : Cluster) (copy : Copy) (claimant index channel : Nat) : Prop
  | delivered (before after : Cell) (found : (cluster.planes index).cells[channel]? = some before)
      (placed : (next.planes index).cells[channel]? = some after)
      (gained : after.inbox = before.inbox ++ [⟨{ copy.message with toWorker := some before.worker.name }, copy.origin⟩])
  | sending (phase : (next.planes claimant).phase = .sending copy.hop)
  | sent (back : Copy) (same : back = copy ∨ back = copy.hop)
      (gained : (next.planes claimant).outbox = (cluster.planes claimant).outbox ++ [back])

section
variable {config : ClusterConfig} {cluster next : Cluster} {event : ClusterEvent} {copy : Copy}

theorem delivered_to_addressee {claimant index channel cell target handle msg} (staffed : Staffed config cluster)
    (found : (cluster.planes index).cells[channel]? = some cell) (targeted : copy.message.toWorker = some target)
    (resolved : resolves (config.node index) target cell.worker.name = true)
    (branch : planned (config.plane claimant) (cluster.plug config claimant) copy = .deliver handle msg) :
    claimant = index ∧ handle.channel = channel ∧ msg = { copy.message with toWorker := some cell.worker.name } := by
  obtain ⟨member, rfl⟩ := planned_deliver branch
  have wired := (staffed.coherent claimant).wired
  obtain ⟨picked, listed, same⟩ := wired.cached handle member
  obtain ⟨rival, present, rfl⟩ := mem_map.mp (mem_of_getElem? listed)
  have mine := staffed.cells index cell (mem_of_getElem? found)
  have theirs := staffed.cells claimant rival present
  have claimed : resolves (config.node claimant) target rival.worker.name = true := by
    rw [show rival.worker.name = handle.name from same]
    exact planned_resolves branch targeted
  obtain ⟨rfl, named⟩ := staffed.resolves_unique mine resolved theirs claimed
  refine ⟨rfl, wired.unique listed (roster_at found) named, ?_⟩
  rw [← named, show rival.worker.name = handle.name from same]

theorem sending_step {config plane next event} (stepped : Step config plane event next)
    (phase : plane.phase = .sending copy) : next.phase = .sending copy ∨ next.queue = plane.queue ++ [copy] := by
  cases stepped with
  | claim held | reclaim held | loadStale held | loadCurrent held | readNames held | readInboxes held
  | noWorker held | deliver held | refuse held | expire held | relay held
  | relayFails held | requeue held | block held | requeueUnreleased held | nackFails held | resume held =>
    cases phase.symm.trans held
  | relayed held =>
    cases phase.symm.trans held
    exact .inr rfl
  | _ => exact .inl phase

theorem outbox_step {config plane next event} (stepped : Step config plane event next) (member : copy ∈ plane.outbox) :
    copy ∈ next.outbox ∨ copy ∈ next.queue := by
  cases stepped with
  | @push index _ found =>
    obtain ⟨place, here⟩ := mem_iff_getElem?.mp member
    by_cases same : place = index
    · subst same
      cases here.symm.trans found
      exact .inr (mem_append_right _ mem_cons_self)
    · exact .inl (mem_eraseIdx_iff_getElem?.mpr ⟨place, same, here⟩)
  | submit | deliverDelayed | finish | finishEphemeral | recvResolved | recvRelayed | recvIdle | forward =>
    exact .inl (mem_append_left _ member)
  | _ => exact .inl member

theorem sending_moves (moved : Moves config cluster event next) {claimant}
    (phase : (cluster.planes claimant).phase = .sending copy) :
    (next.planes claimant).phase = .sending copy ∨ next.queue = cluster.queue ++ [copy] := by
  rcases changes_of_moves moved claimant with same | ⟨act, plane, stepped, rfl, queue⟩ | ⟨_, idle, _⟩ | ⟨same, _⟩
  · exact .inl (same ▸ phase)
  · rw [queue]
    exact sending_step stepped phase
  · cases phase.symm.trans idle
  · exact .inl (same.trans phase)

theorem outbox_moves (moved : Moves config cluster event next) {claimant}
    (member : copy ∈ (cluster.planes claimant).outbox) : copy ∈ (next.planes claimant).outbox ∨ copy ∈ next.queue := by
  rcases changes_of_moves moved claimant with same | ⟨act, plane, stepped, rfl, queue⟩ | ⟨_, _, same⟩ | ⟨_, kept⟩
  · exact .inl (same ▸ member)
  · rw [queue]
    exact outbox_step stepped member
  · exact .inl (same ▸ member)
  · exact .inl (kept member)

theorem act_saves {claimant index channel send plane} (staffed : Staffed config cluster)
    (meant : Meant config cluster copy index channel) (budget : copy.message.attempts < maxTargetedHops)
    (phase : (cluster.planes claimant).phase = .ready copy) (accepted : send = true)
    (stepped : Step (config.plane claimant) (cluster.plug config claimant) (.act true send) plane)
    (settled : plane.phase ≠ .nacking copy) (planes : next.planes claimant = plane) :
    Saved cluster next copy claimant index channel := by
  obtain ⟨cell, found, target, targeted, resolved⟩ := meant
  cases stepped with
  | noWorker held | refuse held =>
    cases phase.symm.trans held
    exact absurd rfl settled
  | @deliver _ _ _ handle _ _ held branch present =>
    cases phase.symm.trans held
    obtain ⟨rfl, rfl, rfl⟩ := delivered_to_addressee staffed found targeted resolved branch
    cases found.symm.trans present
    have inside := (List.getElem?_eq_some_iff.mp present).1
    have placed := congrArg (fun plane => plane.cells[handle.channel]?) planes
    exact .delivered cell _ found (placed.trans (getElem?_set_self inside)) rfl
  | expire held branch =>
    cases phase.symm.trans held
    exact absurd (planned_expire branch).spent (UInt32.not_le.mpr budget)
  | relay held =>
    cases phase.symm.trans held
    exact .sending (by rw [planes])
  | relayFails => cases accepted

theorem recv_saves {claimant index channel idle sent rest plane} (meant : Meant config cluster copy index channel)
    (budget : copy.message.attempts < maxTargetedHops) (queue : cluster.queue = copy :: rest)
    (stepped : Step (config.plane claimant) (cluster.plug config claimant) (.recv idle sent true) plane)
    (planes : next.planes claimant = plane) : Saved cluster next copy claimant index channel := by
  obtain ⟨cell, found, target, targeted, resolved⟩ := meant
  cases stepped with
  | recvResolved head =>
    cases queue.symm.trans head
    exact .sent copy (.inl rfl) (by rw [planes]; rfl)
  | recvExpired head _ _ _ spent =>
    cases queue.symm.trans head
    exact absurd spent (UInt32.not_le.mpr budget)
  | recvRelayed head =>
    cases queue.symm.trans head
    refine .sent _ ?_ (by rw [planes]; rfl)
    cases sent
    · exact .inl rfl
    · exact .inr rfl
  | recvIdle head _ untargeted | recvEphemeral head _ untargeted =>
    cases queue.symm.trans head
    cases targeted.symm.trans untargeted

end

/-- A node acknowledges a message with tries left for a worker of the cluster only
when the worker has it in its inbox or a send to the queue is under way, as long as
the queue takes what a dispatcher relays; and such a send ends on the queue. -/
structure NeverThrownAway (config : ClusterConfig) (cluster : Cluster) : Prop where
  acknowledged : ∀ event next copy claimant index channel, cluster.step config event = some next →
    Meant config cluster copy index channel → copy.message.attempts < maxTargetedHops →
    (∀ node ack, event ≠ .node node (.act ack false)) → Acknowledges cluster next copy claimant event →
    Saved cluster next copy claimant index channel
  sending : ∀ event next copy claimant, cluster.step config event = some next →
    (cluster.planes claimant).phase = .sending copy →
    (next.planes claimant).phase = .sending copy ∨ next.queue = cluster.queue ++ [copy]
  sent : ∀ event next copy claimant, cluster.step config event = some next → copy ∈ (cluster.planes claimant).outbox →
    copy ∈ (next.planes claimant).outbox ∨ copy ∈ next.queue

theorem message_never_thrown_away (config : ClusterConfig) (events : List ClusterEvent) (cluster : Cluster)
    (ran : run (Cluster.step config) {} events = some cluster) : NeverThrownAway config cluster where
  acknowledged := by
    intro event next copy claimant index channel stepped meant budget accepted acknowledges
    have staffed := staffed_reached ran
    have moved := moves_of_step stepped
    cases acknowledges with
    | dispatcher send phase settled =>
      have sends : send = true := by
        cases send
        · exact absurd rfl (accepted claimant true)
        · rfl
      cases moved with
      | @node _ _ plane _ acted =>
        have planes : (cluster.unplug config claimant plane).planes claimant = plane := if_pos rfl
        exact act_saves staffed meant budget phase sends acted (planes ▸ settled) planes
    | recv idle sent rest queue =>
      cases moved with
      | node _ received => exact recv_saves meant budget queue received (if_pos rfl)
  sending := fun event next copy claimant stepped phase => sending_moves (moves_of_step stepped) phase
  sent := fun event next copy claimant stepped member => outbox_moves (moves_of_step stepped) member

section
open TargetExclusivity

/-- The western node claims the order again and again and puts it back each time. -/
def starved : List ClusterEvent :=
  List.flatten [claimed 1, [.node 1 (.act true true), .node 1 .resume],
    (List.replicate 63 [.node 1 .claim, .node 1 .loadGeneration, .node 1 (.act true true), .node 1 .resume]).flatten,
    [.node 1 .claim, .node 1 .loadGeneration]]

def EastAlive (cluster : Cluster) : Prop :=
  ∃ cell ∈ (cluster.planes 0).cells[0]?, cell.registered = true ∧ cell.stopped = false

instance (cluster : Cluster) : Decidable (EastAlive cluster) :=
  inferInstanceAs (Decidable (∃ cell ∈ (cluster.planes 0).cells[0]?, cell.registered = true ∧ cell.stopped = false))

/-- The western node claims the order and acknowledges it, with the relay under way. -/
theorem claimed_order_saved :
    ∃ cluster next copy, run (Cluster.step twoNodes) {} (entered ++ claimed 1) = some cluster ∧
      cluster.step twoNodes (.node 1 (.act true true)) = some next ∧ copy.origin = order ∧
        Acknowledges cluster next copy 1 (.node 1 (.act true true)) ∧ Saved cluster next copy 1 0 0 := by
  have reached : ∃ cluster ∈ run (Cluster.step twoNodes) {} (entered ++ claimed 1),
      ∃ next ∈ cluster.step twoNodes (.node 1 (.act true true)), ∃ copy ∈ (cluster.planes 1).phase.copies,
        (cluster.planes 1).phase = .ready copy ∧ (next.planes 1).phase ≠ .nacking copy ∧ copy.origin = order ∧
          Meant twoNodes cluster copy 0 0 ∧ copy.message.attempts < maxTargetedHops := by decide +kernel
  obtain ⟨cluster, ran, next, stepped, copy, -, phase, settled, ours, meant, budget⟩ := reached
  have acknowledges : Acknowledges cluster next copy 1 (.node 1 (.act true true)) := .dispatcher true phase settled
  have kept := message_never_thrown_away twoNodes (entered ++ claimed 1) cluster ran
  exact ⟨cluster, next, copy, ran, stepped, ours, acknowledges,
    kept.acknowledged _ next copy 1 0 0 stepped meant budget (by simp) acknowledges⟩

/-- The eastern worker is there all the time, but the order's tries are used up
before its node wins a claim, and the western node drops it. -/
theorem starved_order_thrown_away :
    (∃ cluster ∈ run (Cluster.step twoNodes) {} entered,
        Along (Cluster.step twoNodes) (fun reached _ => EastAlive reached) cluster starved) ∧
      ∃ cluster next copy, run (Cluster.step twoNodes) {} (entered ++ starved) = some cluster ∧
        cluster.step twoNodes (.node 1 (.act true true)) = some next ∧ copy.origin = order ∧
          Meant twoNodes cluster copy 0 0 ∧ Acknowledges cluster next copy 1 (.node 1 (.act true true)) ∧
            ¬ Saved cluster next copy 1 0 0 := by
  refine ⟨by decide +kernel, ?_⟩
  have reached : ∃ cluster ∈ run (Cluster.step twoNodes) {} (entered ++ starved),
      ∃ next ∈ cluster.step twoNodes (.node 1 (.act true true)), ∃ copy ∈ (cluster.planes 1).phase.copies,
        copy.origin = order ∧ (cluster.planes 1).phase = .ready copy ∧ (next.planes 1).phase = .idle ∧
          Meant twoNodes cluster copy 0 0 ∧ (next.planes 1).outbox = [] ∧
            ∃ cell ∈ (next.planes 0).cells[0]?, cell.inbox = [] := by decide +kernel
  obtain ⟨cluster, ran, next, stepped, copy, -, ours, phase, idle, meant, outbox, cell, found, empty⟩ := reached
  refine ⟨cluster, next, copy, ran, stepped, ours, meant, .dispatcher true phase (by rw [idle]; simp), ?_⟩
  rintro (⟨before, after, _, placed, gained⟩ | sending | ⟨back, _, gained⟩)
  · cases placed.symm.trans found
    simp [empty] at gained
  · cases idle.symm.trans sending
  · simp [outbox] at gained

end

end EventBase.Proofs.LiveTarget
