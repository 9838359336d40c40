import EventBase.Proofs.RouterMaps

/-! How many dispatchers a topic has. `dispatch_enabled` counts them as long as
`del_workers` is not called on a topic that has one: it clears the flag, and the
loop goes on. -/

namespace EventBase.Proofs.DispatcherCount
open Foundations ConsumerRouter RouterMaps List AList ConsumerRouter

def running (router : ConsumerRouter) (topic : String) : Nat :=
  router.dispatchers.countP (fun spawned => spawned.topic = topic)

/-- At most one dispatcher per topic, and none for a topic that is gone after a
`del_workers`. -/
structure SoleDispatchers (calls : List RouterCall) (router : ConsumerRouter) : Prop where
  atMostOne : ∀ topic, running router topic ≤ 1
  noneLeft : ∀ topic, .delWorkers topic ∈ calls → topic ∉ router.localTopics → running router topic = 0

/-- `del_workers` is called on topics without a dispatcher only. -/
def SparesDispatchers (router : ConsumerRouter) (call : RouterCall) : Prop :=
  ∀ topic, call = .delWorkers topic → router.isEnabled topic = false

def Flagged (router : ConsumerRouter) : Prop :=
  ∀ topic, running router topic = if router.isEnabled topic then 1 else 0

theorem Flagged.of_same {router next} (flagged : Flagged router) (dispatchers : next.dispatchers = router.dispatchers)
    (enabled : next.dispatchEnabled = router.dispatchEnabled) :
    Flagged next := by
  intro topic
  have flag : next.isEnabled topic = router.isEnabled topic := by rw [isEnabled, isEnabled, enabled]
  rw [flag, running, dispatchers]
  exact flagged topic

theorem Flagged.startDispatcher {router} (flagged : Flagged router) (topic : String) (queue : Nat) :
    Flagged (router.startDispatcher topic queue) := by
  unfold ConsumerRouter.startDispatcher
  split
  · exact flagged
  · next off =>
    intro other
    have before := flagged other
    have enabled : ((router.enable topic).spawnTopicDispatcher topic queue).isEnabled other =
        (decide (other = topic) || router.isEnabled other) := isEnabled_enable router topic other
    rw [running] at before
    rw [enabled, running, spawnTopicDispatcher, enable, countP_append, before]
    by_cases same : other = topic
    · subst same
      simp [off]
    · simp [same, Ne.symm same]

theorem Flagged.createWorker {router} (flagged : Flagged router) (worker : Worker) :
    Flagged (router.createWorker worker).2 := by
  unfold ConsumerRouter.createWorker
  split
  · exact flagged
  · next entry found =>
    have attached : Flagged (router.attachInbox worker.name) := flagged.of_same rfl rfl
    refine (attached.startDispatcher worker.topic entry.queue).of_same ?_ ?_
    · simp only [registerWorker]
      split <;> rfl
    · simp only [registerWorker]
      split <;> rfl

theorem delWorkers_frame (router : ConsumerRouter) (topic : String) :
    (router.delWorkers topic).2.dispatchers = router.dispatchers ∧
      (router.delWorkers topic).2.dispatchEnabled = router.dispatchEnabled.erase topic ∧
      (router.delWorkers topic).2.localTopics = router.localTopics.erase topic := by
  simp only [delWorkers, bumpGeneration, disable, unpublishTopic, removeTopic]
  rw [evictAll_frame]
  exact ⟨rfl, rfl, rfl⟩

theorem Flagged.delWorkers {router} (flagged : Flagged router) {topic} (off : router.isEnabled topic = false) :
    Flagged (router.delWorkers topic).2 := by
  obtain ⟨dispatchers, enabled, _⟩ := delWorkers_frame router topic
  intro other
  have kept : (router.delWorkers topic).2.isEnabled other = router.isEnabled other := by
    simp only [isEnabled, enabled]
    by_cases same : other = topic
    · subst same
      rw [lookup_erase]
      exact off.symm
    · rw [lookup_erase_ne same]
  rw [running, dispatchers, kept]
  exact flagged other

theorem Flagged.call {router next request} (flagged : Flagged router) (spares : SparesDispatchers router request)
    (stepped : router.call request = some next) : Flagged next := by
  cases request with
  | register topic created =>
    cases stepped
    obtain ⟨topics, same⟩ := register_frame router topic created
    rw [same]
    exact flagged.of_same rfl rfl
  | createWorker worker =>
    simp only [ConsumerRouter.call] at stepped
    split at stepped
    · cases stepped
    · cases stepped
      exact flagged.createWorker worker
  | delWorker name =>
    cases stepped
    simp only [delWorker]
    split
    · exact flagged.of_same rfl rfl
    · exact flagged
  | delWorkers topic =>
    cases stepped
    exact flagged.delWorkers (spares topic rfl)
  | setPipeline topic pipeline =>
    cases stepped
    simp only [setPipeline]
    split
    · exact flagged
    · exact flagged.of_same rfl rfl

theorem Flagged.sole {router} (flagged : Flagged router) (consistent : Consistent router) (calls : List RouterCall) :
    SoleDispatchers calls router := by
  refine ⟨fun topic => ?_, fun topic _ gone => ?_⟩
  · rw [flagged topic]
    split <;> decide
  · have off : router.isEnabled topic ≠ true := by
      intro enabled
      obtain ⟨entry, found, _⟩ := consistent.started topic enabled
      exact gone (lookup_isSome.mp (by rw [found]; rfl))
    rw [flagged topic, if_neg off]

theorem left_behind {router} (consistent : Consistent router) {topic} (enabled : router.isEnabled topic = true)
    (calls : List RouterCall) :
    ¬ SoleDispatchers (calls ++ [.delWorkers topic]) (router.delWorkers topic).2 := by
  intro sole
  obtain ⟨dispatchers, _, topics⟩ := delWorkers_frame router topic
  obtain ⟨entry, _, spawned⟩ := consistent.started topic enabled
  have gone : topic ∉ (router.delWorkers topic).2.localTopics := by
    rw [topics, mem_erase]
    exact fun member => member.1 rfl
  have none := sole.noneLeft topic (mem_append_right _ mem_cons_self) gone
  rw [running, dispatchers, countP_eq_zero] at none
  exact none _ spawned (decide_eq_true rfl)

/-- Every state a sequence of calls goes through has at most one dispatcher per
topic, and none for a deleted one, exactly when `del_workers` never meets a
topic whose dispatcher has been started. -/
theorem sole_dispatchers_iff (calls : List RouterCall) :
    (∀ before after router, calls = before ++ after → run ConsumerRouter.call {} before = some router →
      SoleDispatchers before router) ↔ Along ConsumerRouter.call SparesDispatchers {} calls := by
  constructor
  · intro sole
    refine along_of_prefixes fun before request rest router split ran topic deleted => ?_
    subst deleted
    have consistent : Consistent router := run_preserves Consistent consistent_call consistent_init ran
    refine Bool.eq_false_iff.mpr fun enabled => left_behind consistent enabled before ?_
    refine sole (before ++ [.delWorkers topic]) rest _ (by rw [split]; simp) ?_
    rw [run_append, ran, Option.bind_some]
    rfl
  · rintro spares before after router rfl ran
    have flagged : Flagged router := run_invariant Flagged (fun spares flagged stepped => flagged.call spares stepped)
      spares.of_append (fun _ => rfl) ran
    exact flagged.sole (run_preserves Consistent consistent_call consistent_init ran) before

private def reopened : List RouterCall :=
  [.register "orders" (.ok 0), .createWorker { topic := "orders", name := "first" }, .delWorkers "orders",
    .register "orders" (.ok 1), .createWorker { topic := "orders", name := "second" }]

/-- A topic that is deleted keeps its dispatcher, and has two once it is back. -/
theorem reopened_topic_has_two :
    (∃ router ∈ run ConsumerRouter.call {} (reopened.take 3),
      "orders" ∉ router.localTopics ∧ running router "orders" = 1) ∧
      ∃ router ∈ run ConsumerRouter.call {} reopened, running router "orders" = 2 := by
  constructor <;> decide +kernel

end EventBase.Proofs.DispatcherCount
