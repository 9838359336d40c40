import EventBase.Proofs.PlaneCoherence
import EventBase.Proofs.RecvAccounting
import EventBase.TraceLayer

/-! On a system topic the handling of a message is observed where a dispatch loop cannot
hand it over and where a built-in handler logs what it does. Workers themselves are silent. -/

namespace EventBase.Proofs.TraceFeedback
open Foundations PlaneCoherence PlaneSteps List Option Plane

variable {config : PlaneConfig} {plane : Plane}

/-- The built-in handler of the topic logs nothing in this call. -/
def Quiet (topic : String) (nodeType : NodeType) (call : HandlerCall) (ended : Bool) : Prop :=
  match SystemHandler.ofTopic topic with
  | .audit | .topicDiscovery => ended = true → call.decodes = true
  | .shutdown => call.decodes = true → call.forced = 0 ∧ call.timedOut = 0
  | .shutdownAck => ended = true → call.decodes = false
  | .topicSync => ended = true → nodeType = .worker → call.decodes = true
  | .silent => True

/-- The dispatch loop finds room in the inbox it chose, and passes a message for a worker
elsewhere on, before its hops are used up. -/
def HandedOver (config : PlaneConfig) (plane : Plane) (copy : Copy) (send : Bool) : Prop :=
  match planned config plane copy with
  | .requeue => True
  | .deliver target _ => ∃ cell, plane.cells[target.channel]? = some cell ∧ cell.accepts config = true
  | .expire => False
  | .relay _ => send = true

/-- So does the recv loop, which sends to the worker it chose as well. -/
def Received (config : PlaneConfig) (plane : Plane) (copy : Copy) (idle sent : Bool) : Prop :=
  match copy.message.toWorker with
  | some target => sent = true ∧ (plane.indexed config target = true ∨ copy.message.attempts < maxTargetedHops)
  | none => idle = true → sent = true

/-- Messages are handed over, and handlers log nothing. -/
def Calm (config : PlaneConfig) (plane : Plane) : PlaneEvent × HandlerCall → Prop
  | (.act _ send, _) => ∀ copy, plane.phase = .ready copy → HandedOver config plane copy send
  | (.recv idle sent _, _) => ∀ copy ∈ plane.queue.head?, Received config plane copy idle sent
  | (.finish channel env run, call) => ∀ cell, plane.cells[channel]? = some cell → cell.hand.isSome = true →
    Quiet config.topic env.nodeType call (cell.worker.ended run)
  | (.finishEphemeral index _ env _, call) => plane.ephemerals[index]?.isSome = true → Quiet config.topic env.nodeType call true
  | (.stop channel, call) => ∀ cell, plane.cells[channel]? = some cell → cell.hand.isSome = true →
    Quiet config.topic .host call false
  | _ => True

/-- A copy leaves the recv loop, or the topic of the message is not registered. -/
def PassedOn (env : RecvEnv) (pass : RecvPass) (claimed : ClaimedMessage EMessage) : Prop :=
  let msg := claimed.message
  let (worker, later) := (pass.lock env).selectWorker env msg
  (pass.handle env claimed).emitted ≠ pass.emitted ∨ msg.topic ∉ (pass.lock env).node.router.localTopics ∨
    worker = none ∧ msg.toWorker.isSome = true ∧ ¬ maxTargetedHops ≤ msg.attempts ∧
      msg.topic ∉ (later.lock env).node.router.localTopics

theorem traces_eq_zero_iff (topic : String) (nodeType : NodeType) (call : HandlerCall) (ended : Bool) :
    (SystemHandler.ofTopic topic).traces nodeType call ended = 0 ↔ Quiet topic nodeType call ended := by
  rw [Quiet]
  cases SystemHandler.ofTopic topic with
  | silent => simp [SystemHandler.traces]
  | shutdownAck =>
    simp only [SystemHandler.traces]
    split
    · next told => split <;> simp_all
    · next untold => simp_all
  | _ => simp [SystemHandler.traces]

theorem dispatchTraces_iff (copy : Copy) (send : Bool) :
    plane.dispatchTraces config copy send = 0 ↔ HandedOver config plane copy send := by
  rw [dispatchTraces, HandedOver, planned]
  cases (Dispatcher.plan config.node plane.dispatcher.cached plane.dispatcher.cursor copy.message).1 with
  | requeue => exact iff_of_true rfl trivial
  | deliver target message =>
    dsimp only
    rw [← Option.any_eq_true]
    split
    · next room => exact iff_of_true rfl room
    · next shut => exact iff_of_false Nat.one_ne_zero shut
  | expire => exact iff_of_false Nat.one_ne_zero id
  | relay message =>
    cases send with
    | false => exact iff_of_false Nat.one_ne_zero Bool.false_ne_true
    | true => exact iff_of_true rfl rfl

theorem recvTraces_iff (copy : Copy) (idle sent : Bool) :
    plane.recvTraces config copy idle sent = 0 ↔ Received config plane copy idle sent := by
  rw [recvTraces, Received]
  cases copy.message.toWorker with
  | none => cases idle <;> cases sent <;> simp
  | some target =>
    rw [← UInt32.not_le]
    cases sent <;> simp [or_iff_not_imp_left]

theorem processMsg_system {worker : Worker} (system : isSystemTopic worker.topic = true) (env : Env) (run : PipelineRun)
    (msg : EMessage) : (worker.processMsg env run msg).outcome = ([], .ok ()) := by
  simp only [Worker.processMsg, system]
  rfl

theorem processObserved_iff {worker : Worker} (system : isSystemTopic worker.topic = true) (msg : EMessage) (env : Env)
    (run : PipelineRun) (call : HandlerCall) :
    processObserved worker msg env run call = [] ↔ Quiet worker.topic env.nodeType call (worker.ended run) := by
  rw [processObserved, processMsg_system system, ← traces_eq_zero_iff]
  simp

/-- A worker holds no message for another one, and on a system topic `process_msg` does
not fail. -/
theorem workerObserved_iff (system : isSystemTopic config.topic = true) {cell copy} (owned : Owned config cell)
    (hand : cell.hand = some copy) (env : Env) (run : PipelineRun) (call : HandlerCall) :
    workerObserved cell copy env run call = [] ↔ Quiet config.topic env.nodeType call (cell.worker.ended run) := by
  rw [← owned.1] at system ⊢
  rw [workerObserved, owned.not_misrouted hand, processMsg_system system]
  simp only [Bool.false_eq_true, if_false, append_nil]
  exact processObserved_iff system copy.message env run call

theorem observed_iff (system : isSystemTopic config.topic = true) (coherent : Coherent config plane) (event : PlaneEvent)
    (call : HandlerCall) : plane.observed config call event = [] ↔ Calm config plane (event, call) := by
  fun_cases observed config plane call event
  case case1 send copy ready =>
    rw [replicate_eq_nil_iff, dispatchTraces_iff]
    simp only [Calm, ready, Phase.ready.injEq, forall_eq']
  case case2 send busy =>
    refine iff_of_true rfl fun copy ready => ?_
    exact (busy copy ready).elim
  case case3 idle sent ack =>
    rw [Calm]
    cases plane.queue.head? with
    | none => simp
    | some copy =>
      rw [elim_some, replicate_eq_nil_iff, recvTraces_iff]
      simp only [mem_some_iff, forall_eq']
  case case4 channel env run cell found =>
    rw [Calm, found]
    cases hand : cell.hand with
    | none => simp [hand]
    | some copy =>
      rw [elim_some, workerObserved_iff system (coherent.cellOwned found) hand]
      simp [hand]
  case case5 channel env run absent => simp [Calm, absent]
  case case6 index name env run =>
    rw [Calm]
    cases plane.ephemerals[index]? with
    | none => simp
    | some copy =>
      rw [elim_some, processObserved_iff (by exact system)]
      simp [Worker.ended]
  case case7 channel held =>
    obtain ⟨cell, found, hand⟩ := (any_eq_true _ _).mp held
    rw [replicate_eq_nil_iff, traces_eq_zero_iff, Calm, found]
    simp [hand]
  case case8 channel free =>
    refine iff_of_true rfl fun cell found hand => ?_
    exact absurd (any_eq_true _ _ |>.mpr ⟨cell, found, hand⟩) free
  case case9 acts receives finishes spawned stops =>
    refine iff_of_true rfl ?_
    cases event with
    | act ack send => exact (acts ack send rfl).elim
    | recv idle sent ack => exact (receives idle sent ack rfl).elim
    | finish channel env run => exact (finishes channel env run rfl).elim
    | finishEphemeral index name env run => exact (spawned index name env run rfl).elim
    | stop channel => exact (stops channel rfl).elim
    | _ => trivial

section
variable (env : RecvEnv) (pass : RecvPass)

theorem sendTraces_iff (claimId : String) (emission : RecvEmission) :
    pass.sendTraces env = 0 ↔ (pass.send env claimId emission).emitted ≠ pass.emitted := by
  rw [RecvPass.sendTraces, RecvPass.send]
  cases env.sends pass.locks <;> simp [RecvPass.emit, RecvPass.ack, RecvPass.nack]

theorem relay_traces_iff (claimId : String) (msg : EMessage) :
    (((pass.lock env).node.router.localTopics.lookup msg.topic).elim 0 fun _ => (pass.lock env).sendTraces env) = 0 ↔
      (pass.relay env claimId msg).emitted ≠ pass.emitted ∨ msg.topic ∉ (pass.lock env).node.router.localTopics := by
  rw [RecvPass.relay, ← AList.lookup_eq_none]
  cases (pass.lock env).node.router.localTopics.lookup msg.topic with
  | none => simp
  | some entry =>
    rw [elim_some, sendTraces_iff env (pass.lock env) claimId]
    exact (or_iff_left (some_ne_none entry)).symm

theorem ephemeral_traces_iff (claimId : String) (msg : EMessage) :
    (((pass.lock env).node.router.localTopics.lookup msg.topic).elim 1 fun _ => 0) = 0 ↔
      (pass.createEphemeralWorker env claimId msg).emitted ≠ pass.emitted := by
  rw [RecvPass.createEphemeralWorker]
  cases (pass.lock env).node.router.localTopics.lookup msg.topic <;>
    simp [RecvPass.emit, RecvPass.ack, RecvPass.nack, RecvPass.lock]

theorem recv_traces_iff (claimed : ClaimedMessage EMessage) :
    pass.traces env claimed.message = 0 ↔ PassedOn env pass claimed := by
  obtain ⟨-, -, kept⟩ := @RecvAccounting.selectWorker_kept env (pass.lock env) claimed.message
  have kept : ((pass.lock env).selectWorker env claimed.message).2.emitted = pass.emitted := kept
  simp only [RecvPass.traces, PassedOn, RecvPass.handle]
  by_cases known : claimed.message.topic ∈ (pass.lock env).node.router.localTopics
  · simp only [known, not_true_eq_false, if_false, false_or]
    rw [← kept]
    cases ((pass.lock env).selectWorker env claimed.message).1 with
    | some worker => simpa using sendTraces_iff env _ claimed.claimId (.forwarded worker claimed.message)
    | none =>
      cases claimed.message.toWorker.isSome with
      | false => simpa using ephemeral_traces_iff env _ claimed.claimId claimed.message
      | true =>
        by_cases spent : maxTargetedHops ≤ claimed.message.attempts
        · simp [spent, RecvPass.ack]
        · simpa [spent] using relay_traces_iff env _ claimed.claimId claimed.message
  · simp [known]

end

/-- In every run on a system topic, nothing is observed exactly if every message claimed
is handed over and handled quietly; nor is anything by the recv loop if it passes the
message on. -/
theorem unobserved_iff_handed_over {config : PlaneConfig} (system : isSystemTopic config.topic = true)
    {events : List (PlaneEvent × HandlerCall)} {plane final : Plane} {earlier : List PlaneEvent}
    (reached : run (Plane.step config) {} earlier = some plane) (ran : run (Plane.observedStep config) plane events = some final) :
    (plane.observedAlong config events = [] ↔ Along (Plane.observedStep config) (Calm config) plane events) ∧
      ∀ env pass claimed, RecvPass.traces env pass claimed.message = 0 ↔ PassedOn env pass claimed := by
  refine ⟨?_, recv_traces_iff⟩
  have coherent := coherent_of_run reached
  clear reached
  induction events generalizing plane with
  | nil => exact iff_of_true rfl trivial
  | cons event rest ih =>
    obtain ⟨next, stepped, continued⟩ := run_cons ran
    obtain ⟨event, call⟩ := event
    have moved : plane.step config event = some next := stepped
    rw [observedAlong, moved, append_eq_nil_iff, observed_iff system coherent, Along]
    refine and_congr_right fun _ => ?_
    have later := ih continued (coherent.step (step_sound moved))
    exact later.trans ⟨fun calm middle same => Option.some.inj (stepped.symm.trans same) ▸ calm, fun calm => calm next stepped⟩

private def node : Env := { nodeType := .host, registry := ∅ }

section
variable (topic : String)

private def watched : PlaneConfig := { node := none, topic }

private def record : EMessage := EMessage.new "m" 0 topic [] .standard none

private def found : List PlaneEvent :=
  [.create "w" none, .register 0, .submit node (record topic), .push 0, .claim, .loadGeneration, .readNames, .readInboxes]

private def handled : PlaneEvent := .finish 0 node ⟨.ack, record topic, false⟩

private def collected : List (PlaneEvent × HandlerCall) := (found topic ++ [.act true true, .receive 0, handled topic]).map (·, {})

end

theorem trace_collected :
    Along (Plane.observedStep (watched systemTopicTrace)) (Calm (watched systemTopicTrace)) {} (collected systemTopicTrace) := by
  have some : (run (observedStep (watched systemTopicTrace)) {} (collected systemTopicTrace)).isSome := by decide +kernel
  obtain ⟨final, ran⟩ := isSome_iff_exists.mp some
  have start : run (step (watched systemTopicTrace)) {} [] = Option.some {} := rfl
  exact (unobserved_iff_handed_over (by decide) start ran).1.mp (by decide +kernel)

/-- The collector is deleted just before the trace is offered to it, which is traced, and
so is every acknowledgement of a shutdown. -/
theorem deleted_collector_traced :
    (run (Plane.step (watched systemTopicTrace)) {} (found systemTopicTrace ++ [.unregister 0, .stop 0, .close 0])).map
        (fun plane => plane.observed (watched systemTopicTrace) {} (.act true true)) = some [systemTopicTrace] ∧
      (run (Plane.step (watched "_system.shutdown_ack")) {} (found "_system.shutdown_ack" ++ [.act true true, .receive 0])).map
        (fun plane => plane.observed (watched "_system.shutdown_ack") {} (handled "_system.shutdown_ack")) = some [systemTopicTrace] := by
  decide +kernel

end EventBase.Proofs.TraceFeedback
