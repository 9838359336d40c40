import EventBase.IdlePool
import EventBase.Proofs.RouterMaps

/-! No worker of the router ever enters the idle pool, so the recv loop does not find
the workers that are idle. -/

namespace EventBase.Proofs.IdleWorkers
open Foundations RouterMaps RecvPass Option AList

structure IdleWorker (state : PoolNode) (topic : String) (worker : Worker) : Prop where
  live : state.node.router.workerIndex.lookup worker.name = some worker
  own : worker.topic = topic
  idle : ∃ task, state.tasks.lookup worker.name = some task ∧ task.status = .idle

def PoolSound (state : PoolNode) : Prop :=
  ∀ topic names, state.node.idleWorkers.lookup topic = some names →
    names.Nodup ∧ ∀ name ∈ names, ∃ worker, state.node.router.workerIndex.lookup name = some worker ∧ worker.topic = topic

def IdleFirst (state : PoolNode) (msg : EMessage) : Prop :=
  (∃ worker, IdleWorker state msg.topic worker) →
    ∀ (env : RecvEnv) (claimId : String) (claimedAt : SystemTime), (∀ locks, env.sends locks = none) →
    ∃ worker, IdleWorker state msg.topic worker ∧
      (({ node := state.node } : RecvPass).handle env.alone ⟨msg, claimId, claimedAt⟩).emitted =
        [(claimId, .forwarded worker msg)]

/-- Workers have inboxes, so nothing comes into the pool. -/
structure Unpooled (state : PoolNode) : Prop where
  empty : state.node.idleWorkers = ∅
  inboxes : ∀ name task, state.tasks.lookup name = some task → task.inbox = true
  consistent : Consistent state.node.router

section
variable {state next : PoolNode} {event : PoolEvent}

theorem unpooled_init : Unpooled {} := ⟨rfl, by simp, consistent_init⟩

theorem handle_node {env : RecvEnv} {pass : RecvPass} (empty : pass.node.idleWorkers = ∅) (claimed : ClaimedMessage EMessage) :
    (pass.handle env.alone claimed).node = pass.node := by
  have locked (pass : RecvPass) : (pass.lock env.alone).node = pass.node := rfl
  have sent (pass : RecvPass) (emission : RecvEmission) : (pass.send env.alone claimed.claimId emission).node = pass.node := by
    unfold RecvPass.send
    split <;> rfl
  have selected : ((pass.lock env.alone).selectWorker env.alone claimed.message).2.node = pass.node := by
    unfold selectWorker
    split
    · rfl
    · simp [selectLocalIdleWorker, locked, empty]
  have relayed (pass : RecvPass) : (pass.relay env.alone claimed.claimId claimed.message).node = pass.node := by
    unfold RecvPass.relay
    dsimp only
    split
    · exact sent _ _
    · rfl
  have spawned (pass : RecvPass) : (pass.createEphemeralWorker env.alone claimed.claimId claimed.message).node = pass.node := by
    unfold RecvPass.createEphemeralWorker
    dsimp only
    split <;> rfl
  unfold RecvPass.handle
  dsimp only
  split
  · rfl
  · split
    · rw [sent, selected]
    · split
      · split
        · exact selected
        · rw [relayed, selected]
      · rw [spawned, selected]

theorem Unpooled.insert (unpooled : Unpooled state) {name other task found} (inbox : task.inbox = true)
    (looked : (state.tasks.insert name task).lookup other = some found) : found.inbox = true := by
  by_cases same : other = name
  · subst same
    rw [lookup_insert] at looked
    cases looked
    exact inbox
  · rw [lookup_insert_ne same] at looked
    exact unpooled.inboxes other found looked

theorem Unpooled.step (unpooled : Unpooled state) (stepped : state.step event = some next) : Unpooled next := by
  cases event with
  | call request =>
    obtain ⟨router, called, rfl⟩ := map_eq_some_iff.mp stepped
    refine ⟨unpooled.empty, fun name task found => ?_, consistent_call unpooled.consistent called⟩
    unfold PoolNode.start at found
    split at found
    · split at found
      · exact unpooled.insert rfl found
      · exact unpooled.inboxes name task found
    · exact unpooled.inboxes name task found
  | status name status =>
    obtain ⟨task, known, rfl⟩ := map_eq_some_iff.mp stepped
    have inbox := unpooled.inboxes name task known
    have kept : ({ task with status } : WorkerTask).inbox = true := inbox
    rw [if_pos inbox]
    exact ⟨unpooled.empty, fun other found looked => unpooled.insert kept looked, unpooled.consistent⟩
  | recv env claimed =>
    cases stepped
    have same : (({ node := state.node } : RecvPass).handle env.alone claimed).node = state.node :=
      handle_node unpooled.empty claimed
    simp only [same]
    exact unpooled

theorem Unpooled.spawns (unpooled : Unpooled state) {msg} (untargeted : msg.toWorker = none)
    (registered : msg.topic ∈ state.node.router.localTopics) (env : RecvEnv) (claimId : String)
    (claimedAt : SystemTime) :
    (({ node := state.node } : RecvPass).handle env.alone ⟨msg, claimId, claimedAt⟩).emitted =
      [(claimId, .spawned msg.topic msg)] := by
  obtain ⟨entry, found⟩ := isSome_iff_exists.mp (lookup_isSome.mpr registered)
  have empty := unpooled.empty
  simp [RecvPass.handle, RecvPass.lock, RecvEnv.alone, registered, selectWorker, untargeted, selectLocalIdleWorker, empty,
    createEphemeralWorker, found, RecvPass.emit, RecvPass.ack]

end

/-- In every state a node can reach, the pool names only live workers of the topic, and
an untargeted message goes to an idle worker if there is one, exactly if there is
none: what the recv loop looks for in the pool is never there. -/
theorem idle_first_iff {events : List PoolEvent} {state : PoolNode} (ran : run PoolNode.step {} events = some state)
    {msg : EMessage} (untargeted : msg.toWorker = none) :
    PoolSound state ∧ IdleFirst state msg ↔ ¬ ∃ worker, IdleWorker state msg.topic worker := by
  have unpooled := run_preserves Unpooled (fun unpooled stepped => Unpooled.step unpooled stepped) unpooled_init ran
  constructor
  · rintro ⟨-, first⟩ ⟨worker, idle⟩
    have registered : msg.topic ∈ state.node.router.localTopics := by
      by_contra absent
      have listed := (unpooled.consistent.members msg.topic worker.name).mpr ⟨worker, idle.live, idle.own⟩
      rw [listed_of_not_mem absent] at listed
      cases listed
    obtain ⟨other, -, forwarded⟩ := first ⟨worker, idle⟩ {} "" 0 fun _ => rfl
    rw [unpooled.spawns untargeted registered] at forwarded
    cases forwarded
  · intro none
    refine ⟨fun topic names found => ?_, fun some => absurd some none⟩
    rw [unpooled.empty] at found
    cases found

private def clerk : Worker := { topic := "orders", name := "w" }

private def hired : List PoolEvent := [.call (.register "orders" (.ok 0)), .call (.createWorker clerk)]

private def order : EMessage := EMessage.new "m" 0 "orders" [] .standard none

theorem busy_worker_not_asked : ∃ state, run PoolNode.step {} (hired ++ [.status "w" .working]) = some state ∧
    PoolSound state ∧ IdleFirst state order := by
  have reached : (run PoolNode.step {} (hired ++ [.status "w" .working])).isSome = true := by decide +kernel
  have busy : ((run PoolNode.step {} (hired ++ [.status "w" .working])).map fun state =>
      state.tasks.entries.all fun entry => entry.2.status = .working) = some true := by decide +kernel
  obtain ⟨state, ran⟩ := isSome_iff_exists.mp reached
  refine ⟨state, ran, (idle_first_iff ran rfl).mpr ?_⟩
  rintro ⟨worker, -, -, task, found, idle⟩
  rw [ran, map_some, Option.some.injEq, List.all_eq_true] at busy
  have working := busy ⟨worker.name, task⟩ (mem_lookup_iff.mp found)
  simp [idle] at working

private def staffed : PoolNode where
  node := { router := ((({} : ConsumerRouter).register "orders" (.ok 0)).2.createWorker clerk).2 }
  tasks := (∅ : Table WorkerTask).insert "w" { worker := clerk, inbox := true }

/-- The only worker of the topic is idle, and the order goes to another one. -/
theorem idle_worker_passed_over : run PoolNode.step {} hired = some staffed ∧ IdleWorker staffed "orders" clerk ∧
    (({ node := staffed.node } : RecvPass).handle ({} : RecvEnv).alone ⟨order, "1", 0⟩).emitted =
        [("1", .spawned "orders" order)] ∧
      ¬ IdleFirst staffed order := by
  have idle : IdleWorker staffed "orders" clerk :=
    ⟨by decide +kernel, rfl, { worker := clerk, inbox := true }, by decide +kernel, rfl⟩
  have spawned : (({ node := staffed.node } : RecvPass).handle ({} : RecvEnv).alone ⟨order, "1", 0⟩).emitted =
      [("1", .spawned "orders" order)] := by decide +kernel
  refine ⟨rfl, idle, spawned, fun first => ?_⟩
  obtain ⟨worker, -, forwarded⟩ := first ⟨clerk, idle⟩ {} "1" 0 fun _ => rfl
  cases spawned.symm.trans forwarded

end EventBase.Proofs.IdleWorkers
