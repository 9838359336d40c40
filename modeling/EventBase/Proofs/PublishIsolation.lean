import EventBase.Foundations.Descent
import EventBase.Proofs.DispatcherConservation
import EventBase.Proofs.RouterMaps
import EventBase.Proofs.TaskTraffic
import EventBase.PublishedCopies

/-! What a client publishes stays out of the coordination plane. No topic that starts
with an underscore has a copy of it: not the system topics, and not the one that the
recv loop reads. -/

namespace EventBase.Proofs.PublishIsolation
open Foundations DispatcherConservation RouterMaps TaskLogic TaskTraffic CopyTraffic List Option

def Outside (topic : String) : Prop := startsWithUnderscore topic = false

theorem Outside.not_system {topic} (outside : Outside topic) : isSystemTopic topic = false := by
  unfold Outside startsWithUnderscore at outside
  unfold isSystemTopic
  cases chars : topic.toList with
  | nil => rfl
  | cons first rest =>
    rw [chars] at outside
    simp_all [List.isPrefixOf]

theorem deadLetterTopic_outside (topic : String) : Outside (Worker.deadLetterTopic topic) := by
  simp [Outside, startsWithUnderscore, Worker.deadLetterTopic, String.toList_append, List.isPrefixOf]

def Leads (effect : Effect) : Prop := ∀ topic, Lands topic (fun msg => Outside msg.topic) (fun msg => Outside msg.topic) effect

section
variable {env : Env}

theorem send_leads {destination} (msg : EMessage) (own : Outside msg.topic) (target : Outside destination)
    (topic : String) : EmitsOnly (Lands topic (fun msg => Outside msg.topic) (fun msg => Outside msg.topic))
      (TopicRouter.send env destination msg none none) :=
  send_lands (fun _ => own) (fun _ _ => target) fun _ _ _ _ => own

theorem letter_leads (worker : Worker) (msg : EMessage) (topic : String) :
    EmitsOnly (Lands topic (fun msg => Outside msg.topic) (fun msg => Outside msg.topic))
      (TopicRouter.send env (Worker.deadLetterTopic worker.topic) (TaskTraffic.letter worker msg) none none) := by
  have letter := deadLetterTopic_outside worker.topic
  exact send_leads (TaskTraffic.letter worker msg) letter letter topic

theorem processMsg_leads (worker : Worker) {run} (msg : EMessage) (own : Outside run.message.topic) :
    ∀ effect ∈ (worker.processMsg env run msg).outcome.1, Leads effect := by
  intro effect member topic
  refine Emits.outcome (processMsg_lands msg ⟨fun _ => own, fun _ _ _ => own, ?_, ?_, ?_⟩) effect member
  · exact fun _ _ deliverAt _ _ => send_leads { run.message with attempts := run.message.attempts + 1, deliverAt } own own topic
  · exact fun _ _ _ _ => letter_leads worker _ topic
  · exact fun _ _ => letter_leads worker _ topic

theorem deliverDelayed_leads {record} (own : Outside record.message.topic) :
    ∀ effect ∈ (deliverDelayed env record).outcome.1, Leads effect := by
  intro effect member topic
  exact Emits.outcome (send_leads { record.message with deliverAt := none } own own topic).ignore effect member

theorem publish_effects (env : Env) (request : PublishRequest) (id : String) (createdAt : SystemTime) :
    (EventBaseService.publish env request id createdAt).1 = [] ∨ Outside request.topic ∧
      (EventBaseService.publish env request id createdAt).1 =
        (TopicRouter.send env request.topic (request.message id createdAt) none none).outcome.1 := by
  unfold EventBaseService.publish
  split
  · exact .inl rfl
  split
  · exact .inl rfl
  · next accepted =>
    have outside : Outside request.topic := by simpa [Outside] using accepted
    refine .inr ⟨outside, ?_⟩
    dsimp only
    split
    all_goals
      next sent => rw [sent]

theorem publish_leads (env : Env) (request : PublishRequest) (id : String) (createdAt : SystemTime) :
    (EventBaseService.publish env request id createdAt).1 = [] ∨
      Outside request.topic ∧ ∀ effect ∈ (EventBaseService.publish env request id createdAt).1, Leads effect := by
  rcases publish_effects env request id createdAt with none | ⟨outside, sent⟩
  · exact .inl none
  · refine .inr ⟨outside, fun effect member topic => ?_⟩
    rw [sent] at member
    exact Emits.outcome (send_leads (request.message id createdAt) outside outside topic) effect member

end

structure Attached (node : TrafficNode) : Prop where
  router : Consistent node.router
  names : ∀ topic dispatcher, ∀ worker ∈ (node.caches topic dispatcher).names, worker.topic = topic
  cached : ∀ topic dispatcher, ∀ worker ∈ (node.caches topic dispatcher).cached, worker.topic = topic

/-- Wherever a published copy is, the topic of the place and its own have no underscore
in front. -/
structure Isolated (state : CopyTraffic) : Prop where
  attached : ∀ node, Attached (state.nodes node)
  queues : ∀ entry ∈ state.queues, entry.2.published = true → Outside entry.1.topic ∧ Outside entry.2.message.topic
  handed : ∀ handed ∈ state.handed, handed.copy.published = true →
    Outside handed.worker.topic ∧ Outside handed.copy.message.topic
  delays : ∀ entry ∈ state.delays, entry.2 = true → Outside entry.1.message.topic
  started : ∀ handed ∈ state.started, handed.copy.published = true → Outside handed.worker.topic

section
variable {transport : Transport} {state next : CopyTraffic} {node : Nat}

theorem key_topic (transport : Transport) (node : Nat) (topic : String) : (transport.key node topic).topic = topic := by
  cases transport <;> rfl

namespace Isolated

theorem put (isolated : Isolated state) {key copy}
    (outside : copy.published = true → Outside key.topic ∧ Outside copy.message.topic) : Isolated (state.put key copy) := by
  refine { isolated with queues := fun entry member => ?_ }
  rcases mem_append.mp member with old | new
  · exact isolated.queues entry old
  · rw [mem_singleton.mp new]
    exact outside

theorem hand (isolated : Isolated state) {handed}
    (outside : handed.copy.published = true → Outside handed.worker.topic ∧ Outside handed.copy.message.topic) :
    Isolated (state.hand handed) := by
  refine { isolated with handed := fun other member => ?_ }
  rcases mem_append.mp member with old | new
  · exact isolated.handed other old
  · rw [mem_singleton.mp new]
    exact outside

theorem perform (isolated : Isolated state) (own : String) {published effect}
    (outside : published = true → Outside own ∧ Leads effect) :
    Isolated (state.perform transport node own published effect) := by
  cases effect with
  | audit | walSync => exact isolated
  | publish msg =>
    refine isolated.put fun marked => ?_
    have leads : Outside msg.topic := ((outside marked).2 msg.topic).outgoing msg (by simp [outgoing])
    exact ⟨by rwa [key_topic], leads⟩
  | requeue msg =>
    refine isolated.put fun marked => ?_
    exact ⟨by rw [key_topic]; exact (outside marked).1, ((outside marked).2 own).outgoing msg rfl⟩
  | schedule record =>
    refine { isolated with delays := fun entry member => ?_ }
    rcases mem_append.mp member with old | new
    · exact isolated.delays entry old
    · rw [mem_singleton.mp new]
      exact fun marked => ((outside marked).2 own).scheduled record.message rfl

theorem performAll (isolated : Isolated state) (own : String) {published effects}
    (outside : published = true → Outside own ∧ ∀ effect ∈ effects, Leads effect) :
    Isolated (state.performAll transport node own published effects) := by
  induction effects generalizing state with
  | nil => exact isolated
  | cons effect rest ih =>
    refine ih (isolated.perform own fun marked => ?_) fun marked => ?_
    · exact ⟨(outside marked).1, (outside marked).2 effect mem_cons_self⟩
    · exact ⟨(outside marked).1, fun other member => (outside marked).2 other (mem_cons_of_mem _ member)⟩

theorem passOn (isolated : Isolated state) (ephemeral : String) (emission : RecvEmission) :
    Isolated (state.passOn transport node ephemeral false emission) := by
  cases emission with
  | forwarded | relayed => exact isolated.put (by simp)
  | spawned => exact isolated.hand (by simp)

theorem passAll (isolated : Isolated state) (ephemeral : String) (emitted : List (String × RecvEmission)) :
    Isolated (emitted.foldl (fun state entry => state.passOn transport node ephemeral false entry.2) state) := by
  induction emitted generalizing state with
  | nil => exact isolated
  | cons entry rest ih => exact ih (isolated.passOn ephemeral entry.2)

theorem setNode (isolated : Isolated state) {value} (attached : Attached value) :
    Isolated (state.setNode node value) := by
  refine { isolated with attached := fun other => ?_ }
  dsimp only [CopyTraffic.setNode]
  split
  · exact attached
  · exact isolated.attached other

theorem setCache (isolated : Isolated state) {topic} (dispatcher : Nat) {cache}
    (names : ∀ worker ∈ cache.names, worker.topic = topic) (cached : ∀ worker ∈ cache.cached, worker.topic = topic) :
    Isolated (state.setCache node topic dispatcher cache) := by
  have attached := isolated.attached node
  refine isolated.setNode ⟨attached.router, fun other number => ?_, fun other number => ?_⟩
  all_goals
    dsimp only
    split
  · next same => exact same.1 ▸ names
  · exact attached.names other number
  · next same => exact same.1 ▸ cached
  · exact attached.cached other number

theorem call (isolated : Isolated state) {request} (called : state.call node request = some next) :
    Isolated next := by
  obtain ⟨router, answered, rfl⟩ := map_eq_some_iff.mp called
  have attached := isolated.attached node
  exact isolated.setNode ⟨consistent_call attached.router answered, attached.names, attached.cached⟩

theorem readNames (isolated : Isolated state) (topic : String) (dispatcher : Nat) :
    Isolated (state.readNames node topic dispatcher) := by
  have attached := isolated.attached node
  refine isolated.setCache dispatcher (fun worker member => ?_) (attached.cached topic dispatcher)
  obtain ⟨name, published, found⟩ := mem_filterMap.mp member
  rw [← attached.router.agreed topic] at published
  obtain ⟨other, again, own⟩ := (attached.router.members topic name).mp published
  cases found.symm.trans again
  exact own

theorem readInboxes (isolated : Isolated state) (topic : String) (dispatcher : Nat) :
    Isolated (state.readInboxes node topic dispatcher) := by
  have names := (isolated.attached node).names topic dispatcher
  exact isolated.setCache dispatcher names fun worker member => names worker (mem_filter.mp member).1

theorem dispatch (isolated : Isolated state) {key copy} (present : (key, copy) ∈ state.queues) {cached}
    (own : ∀ worker ∈ cached, worker.topic = key.topic) (name : Option String) (cursor : Nat) :
    Isolated (state.dispatch node key copy name cached cursor) := by
  have outside := isolated.queues (key, copy) present
  unfold CopyTraffic.dispatch
  obtain ⟨_, decided, planned⟩ := plan_cases name (cacheOfWorkers cached) cursor copy.message
  rw [decided]
  cases planned with
  | requeue | expire => exact isolated
  | deliver =>
    dsimp only
    split
    · next worker found =>
      refine isolated.hand fun marked => ⟨?_, (outside marked).2⟩
      rw [own worker (mem_of_getElem? found)]
      exact (outside marked).1
    · exact isolated
  | relay => exact isolated.put outside

theorem process (isolated : Isolated state) {handed} (present : handed ∈ state.handed) (env : Env) {run}
    (kept : run.message.topic = handed.copy.message.topic) : Isolated (state.process transport handed env run) := by
  have outside := isolated.handed handed present
  obtain ⟨node, worker, copy⟩ := handed
  dsimp only [CopyTraffic.process]
  split
  · split
    · exact isolated
    · next message relayed =>
      refine isolated.put fun marked => ⟨by rw [key_topic]; exact (outside marked).1, ?_⟩
      unfold Worker.routeTargeted at relayed
      split at relayed <;> cases relayed
      exact (outside marked).2
  · have performed : Isolated (state.performAll transport node worker.topic copy.published
        (worker.processMsg (transport.surroundings (state.nodes node) env) run copy.message).outcome.1) :=
      isolated.performAll worker.topic fun marked =>
        ⟨(outside marked).1, processMsg_leads worker copy.message (kept ▸ (outside marked).2)⟩
    refine { performed with started := fun other member => ?_ }
    rcases mem_append.mp member with old | new
    · exact isolated.started other old
    · rw [mem_singleton.mp new]
      exact fun marked => (outside marked).1

end Isolated

def keepsTopic (state : CopyTraffic) : TrafficEvent → Bool
  | .process index _ run => (state.handed[index]?).all fun handed => run.message.topic = handed.copy.message.topic
  | _ => true

def TopicKept (state : CopyTraffic) (event : TrafficEvent) : Prop := keepsTopic state event = true

instance (state : CopyTraffic) (event : TrafficEvent) : Decidable (TopicKept state event) :=
  inferInstanceAs (Decidable (keepsTopic state event = true))

theorem mainQueue_unmarked (isolated : Isolated state) {key copy} (present : (key, copy) ∈ state.queues)
    (main : transport.mainQueue node = some key) : copy.published = false := by
  cases transport with
  | crossfire => cases main
  | redis =>
    cases main
    rw [← Bool.not_eq_true]
    intro marked
    have outside : Outside "_default" := (isolated.queues _ present marked).1
    have reserved : startsWithUnderscore "_default" = true := by decide
    cases reserved.symm.trans outside

theorem Isolated.step (isolated : Isolated state) {event} (kept : TopicKept state event)
    (stepped : state.step transport event = some next) : Isolated next := by
  cases event with
  | call node request => exact isolated.call stepped
  | publish node env request id createdAt =>
    cases stepped
    rcases publish_leads (transport.surroundings (state.nodes node) env) request id createdAt with none | leads
    · rw [none]
      exact isolated
    · exact isolated.performAll request.topic fun _ => leads
  | foreign key msg =>
    cases stepped
    exact isolated.put (by simp)
  | readNames node topic dispatcher =>
    cases stepped
    exact isolated.readNames topic dispatcher
  | readInboxes node topic dispatcher =>
    cases stepped
    exact isolated.readInboxes topic dispatcher
  | dispatch node topic dispatcher name cursor index =>
    dsimp only [CopyTraffic.step] at stepped
    split at stepped
    · next key copy found =>
      split at stepped <;> cases stepped
      next same =>
      refine isolated.dispatch (mem_of_getElem? found) (fun worker member => ?_) name cursor
      rw [same, key_topic]
      exact (isolated.attached node).cached topic dispatcher worker member
    · cases stepped
  | receive node worker index =>
    dsimp only [CopyTraffic.step] at stepped
    split at stepped
    · next key copy found =>
      split at stepped <;> cases stepped
      next same =>
      refine isolated.hand fun marked => ?_
      have outside := isolated.queues _ (mem_of_getElem? found) marked
      rwa [same, key_topic] at outside
    · cases stepped
  | recv node env idleWorkers ephemeral index =>
    dsimp only [CopyTraffic.step] at stepped
    split at stepped
    · next key copy found =>
      split at stepped <;> cases stepped
      next main =>
      unfold CopyTraffic.recv
      rw [mainQueue_unmarked isolated (mem_of_getElem? found) main]
      exact isolated.passAll ephemeral _
    · cases stepped
  | process index env run =>
    obtain ⟨handed, found, rfl⟩ := map_eq_some_iff.mp stepped
    refine isolated.process (mem_of_getElem? found) env ?_
    simpa [TopicKept, keepsTopic, found] using kept
  | fetch node env index =>
    dsimp only [CopyTraffic.step] at stepped
    split at stepped
    · next record published found =>
      cases stepped
      refine isolated.performAll record.message.topic fun marked => ?_
      have outside := isolated.delays _ (mem_of_getElem? found) marked
      exact ⟨outside, deliverDelayed_leads outside⟩
    · cases stepped

end

theorem isolated_init : Isolated {} :=
  ⟨fun _ => ⟨consistent_init, by simp, by simp⟩, by simp, by simp, by simp, by simp⟩

/-- In every run of any number of nodes, whatever clients publish and whichever workers
they name: no worker of a system topic runs its pipeline on a published message or on
a copy that dispatchers, recv loops, workers or the delay scheduler made of one. -/
theorem published_kept_out {transport : Transport} {events : List TrafficEvent} {state : CopyTraffic}
    (kept : Along (CopyTraffic.step transport) TopicKept {} events) (ran : run (CopyTraffic.step transport) {} events = some state)
    {handed : Handed} (started : handed ∈ state.started) (published : handed.copy.published = true) :
    isSystemTopic handed.worker.topic = false := by
  have isolated := run_invariant Isolated (fun kept isolated stepped => Isolated.step isolated kept stepped) kept isolated_init ran
  exact (isolated.started handed started published).not_system

private def clerk : Worker := { topic := "orders", name := "w" }

private def host : Env := { nodeType := .host, registry := ∅ }

private def request : PublishRequest := { topic := "orders", payload := [], broadcast := false, toWorker := "" }

private def stamped : EMessage := { request.message "m" 0 with toWorker := some "w" }

private def events : List TrafficEvent :=
  [.call 0 (.register "orders" (.ok 0)), .call 0 (.createWorker clerk), .readNames 0 "orders" 0, .readInboxes 0 "orders" 0,
    .publish 0 host request "m" 0, .dispatch 0 "orders" 0 none 0 0, .process 0 host { answer := .ack, message := stamped }]

theorem published_order_handled : ∃ state, run (CopyTraffic.step .crossfire) {} events = some state ∧
    state.started = [⟨0, clerk, ⟨stamped, true⟩⟩] ∧ isSystemTopic clerk.topic = false := by
  have kept : Along (CopyTraffic.step .crossfire) TopicKept {} events := by decide +kernel
  have handled : (run (CopyTraffic.step .crossfire) {} events).map CopyTraffic.started =
      some [⟨0, clerk, ⟨stamped, true⟩⟩] := by decide +kernel
  obtain ⟨state, ran, started⟩ := map_eq_some_iff.mp handled
  refine ⟨state, ran, started, ?_⟩
  have member : (⟨0, clerk, ⟨stamped, true⟩⟩ : Handed) ∈ state.started := by rw [started]; exact mem_singleton_self _
  exact published_kept_out kept ran member rfl

end EventBase.Proofs.PublishIsolation
