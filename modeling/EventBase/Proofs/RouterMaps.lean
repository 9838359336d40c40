import EventBase.ConsumerRouter
import EventBase.Foundations.Run

/-! The maps of the consumer router, whatever calls were made: together they describe one set
of topics with their workers. -/

namespace EventBase.Proofs.RouterMaps

open EventBase Foundations ConsumerRouter List Option AList

variable {topic name : String} {entry : TopicEntry} {worker : Worker}

theorem listed_of_lookup {router : ConsumerRouter}
    (found : router.localTopics.lookup topic = some entry) : router.listed topic = entry.workers := by
  simp only [listed, found, map_some, getD_some]

theorem listed_of_not_mem {router : ConsumerRouter} (absent : topic ∉ router.localTopics) :
    router.listed topic = [] := by
  simp only [listed, lookup_eq_none.mpr absent, map_none, getD_none]

theorem listed_listWorker (router : ConsumerRouter) (topic : String) (entry : TopicEntry) (name other : String) :
    (router.listWorker topic entry name).listed other =
      if other = topic then entry.workers ++ [name] else router.listed other := by
  simp only [listed, listWorker, lookup_insert_eq]
  split <;> rfl

theorem published_publishWorker (router : ConsumerRouter) (topic name other : String) :
    (router.publishWorker topic name).published other =
      if other = topic then router.published topic ++ [name] else router.published other := by
  simp only [published, publishWorker, lookup_insert_eq]
  split <;> rfl

theorem listed_unlistWorker (router : ConsumerRouter) (name topic : String) :
    (router.unlistWorker name).listed topic = (router.listed topic).filter (fun other => other ≠ name) := by
  cases found : router.localTopics.lookup topic <;> simp [listed, unlistWorker, found]

theorem published_unpublishWorker (router : ConsumerRouter) (name topic : String) :
    (router.unpublishWorker name).published topic = (router.published topic).filter (fun other => other ≠ name) := by
  cases found : router.dispatchWorkers.lookup topic <;> simp [published, unpublishWorker, found]

theorem listed_removeTopic (router : ConsumerRouter) (topic other : String) :
    (router.removeTopic topic).listed other = if other = topic then [] else router.listed other := by
  simp only [listed, removeTopic, lookup_erase_eq]
  split <;> rfl

theorem published_unpublishTopic (router : ConsumerRouter) (topic other : String) :
    (router.unpublishTopic topic).published other = if other = topic then [] else router.published other := by
  simp only [published, unpublishTopic, lookup_erase_eq]
  split <;> rfl

theorem isEnabled_enable (router : ConsumerRouter) (topic other : String) :
    (router.enable topic).isEnabled other = (decide (other = topic) || router.isEnabled other) := by
  by_cases same : other = topic <;> simp [isEnabled, enable, lookup_insert_eq, same]

theorem isEnabled_disable (router : ConsumerRouter) (topic other : String) :
    (router.disable topic).isEnabled other = (decide (other ≠ topic) && router.isEnabled other) := by
  by_cases same : other = topic <;> simp [isEnabled, disable, lookup_erase_eq, same]

theorem evictAll_frame (names : List String) (router : ConsumerRouter) :
    (names.foldl evict router) =
      { router with
        workerIndex := (names.foldl evict router).workerIndex
        localInboxes := (names.foldl evict router).localInboxes } := by
  induction names generalizing router with
  | nil => rfl
  | cons name rest ih =>
    rw [foldl_cons, ih]
    by_cases present : name ∈ router.workerIndex
    · simp only [evict, present, if_true, unindexWorker, detachInbox]
    · simp only [evict, present, if_false]

theorem lookup_evict (router : ConsumerRouter) (name other : String) :
    (router.evict name).workerIndex.lookup other = if other = name then none else router.workerIndex.lookup other := by
  by_cases present : name ∈ router.workerIndex
  · simp only [evict, present, if_true, unindexWorker, detachInbox, lookup_erase_eq]
  · rw [evict, if_neg present]
    split
    · next same => exact lookup_eq_none.mpr (same ▸ present)
    · rfl

theorem lookup_evictAll (names : List String) (router : ConsumerRouter) (other : String) :
    (names.foldl evict router).workerIndex.lookup other =
      if other ∈ names then none else router.workerIndex.lookup other := by
  induction names generalizing router with
  | nil => simp
  | cons name rest ih =>
    rw [foldl_cons, ih, lookup_evict]
    by_cases same : other = name <;> simp [same]

structure Consistent (router : ConsumerRouter) : Prop where
  inboxes : ∀ name, name ∈ router.localInboxes ↔ name ∈ router.workerIndex
  named : ∀ {name worker}, router.workerIndex.lookup name = some worker → worker.name = name
  distinct : ∀ topic, (router.listed topic).Nodup
  agreed : ∀ topic, router.listed topic = router.published topic
  members : ∀ topic name,
    name ∈ router.listed topic ↔ ∃ worker, router.workerIndex.lookup name = some worker ∧ worker.topic = topic
  started : ∀ topic, router.isEnabled topic = true →
    ∃ entry, router.localTopics.lookup topic = some entry ∧ ⟨topic, entry.queue⟩ ∈ router.dispatchers
  enabled : ∀ topic, router.listed topic ≠ [] → router.isEnabled topic = true

theorem consistent_init : Consistent {} where
  inboxes := fun _ => Iff.rfl
  named := by simp
  distinct := fun _ => by simp [listed]
  agreed := fun _ => by simp [listed, published]
  members := fun _ _ => by simp [listed]
  started := fun _ => by simp [isEnabled]
  enabled := fun _ => by simp [listed]

theorem Consistent.setTopics {router topics} (consistent : Consistent router)
    (same : ∀ topic, { router with localTopics := topics }.listed topic = router.listed topic)
    (kept : ∀ topic entry, router.localTopics.lookup topic = some entry →
      ∃ current, topics.lookup topic = some current ∧ current.queue = entry.queue) :
    Consistent { router with localTopics := topics } := by
  refine ⟨consistent.inboxes, consistent.named, fun topic => same topic ▸ consistent.distinct topic,
    fun topic => (same topic).trans (consistent.agreed topic), fun topic => same topic ▸ consistent.members topic, ?_,
    fun topic => same topic ▸ consistent.enabled topic⟩
  intro topic enabled
  obtain ⟨entry, found, spawned⟩ := consistent.started topic enabled
  obtain ⟨current, present, queue⟩ := kept topic entry found
  exact ⟨current, present, queue ▸ spawned⟩

theorem register_frame (router : ConsumerRouter) (topic : String) (created : Except CoreError Nat) :
    ∃ topics, (router.register topic created).2 = { router with localTopics := topics } := by
  unfold register
  split
  · exact ⟨_, rfl⟩
  · cases created <;> exact ⟨_, rfl⟩

theorem listed_register (router : ConsumerRouter) (topic : String) (created : Except CoreError Nat) (other : String) :
    (router.register topic created).2.listed other = router.listed other := by
  unfold register
  split
  · rfl
  · next absent =>
    cases created with
    | error _ => rfl
    | ok queue =>
      by_cases same : other = topic
      · subst same
        rw [listed_of_not_mem absent]
        simp [listed]
      · simp [listed, same]

theorem consistent_register {router} (consistent : Consistent router) (topic : String)
    (created : Except CoreError Nat) : Consistent (router.register topic created).2 := by
  have lists := listed_register router topic created
  unfold register at lists ⊢
  split
  · exact consistent
  · next absent =>
    rw [if_neg absent] at lists
    cases created with
    | error _ => exact consistent
    | ok queue =>
      refine consistent.setTopics lists fun other entry found => ?_
      have different : other ≠ topic := by
        rintro rfl
        exact absent (lookup_isSome.mp (isSome_of_eq_some found))
      exact ⟨entry, (lookup_insert_ne different).trans found, rfl⟩

theorem consistent_setPipeline {router : ConsumerRouter} (consistent : Consistent router) (topic : String)
    (pipeline : Nat) : Consistent (router.setPipeline topic pipeline).2 := by
  unfold setPipeline
  split
  · exact consistent
  · next entry found =>
    apply consistent.setTopics
    · intro other
      by_cases same : other = topic
      · subst same
        rw [listed_of_lookup found]
        simp [listed]
      · simp [listed, same]
    · intro other current present
      by_cases same : other = topic
      · subst same
        rw [found] at present
        cases present
        exact ⟨_, lookup_insert _, rfl⟩
      · exact ⟨current, (lookup_insert_ne same).trans present, rfl⟩

theorem startDispatcher_attachInbox (router : ConsumerRouter) (name topic : String) (queue : Nat) :
    (router.attachInbox name).startDispatcher topic queue = (router.startDispatcher topic queue).attachInbox name := by
  unfold startDispatcher
  by_cases enabled : router.isEnabled topic
  · rw [if_pos enabled, if_pos (by exact enabled)]
  · rw [if_neg enabled, if_neg (by exact enabled)]
    rfl

theorem localTopics_startDispatcher (router : ConsumerRouter) (topic : String) (queue : Nat) :
    (router.startDispatcher topic queue).localTopics = router.localTopics := by
  unfold startDispatcher
  split <;> rfl

theorem isEnabled_startDispatcher (router : ConsumerRouter) (topic : String) (queue : Nat) :
    (router.startDispatcher topic queue).isEnabled topic = true := by
  unfold startDispatcher
  split
  · assumption
  · exact (isEnabled_enable router topic topic).trans (by simp)

theorem consistent_startDispatcher {router} (consistent : Consistent router)
    (found : router.localTopics.lookup topic = some entry) :
    Consistent (router.startDispatcher topic entry.queue) := by
  unfold startDispatcher
  split
  · exact consistent
  · refine ⟨consistent.inboxes, consistent.named, consistent.distinct, consistent.agreed, consistent.members, ?_, ?_⟩
    · intro other enabled
      by_cases same : other = topic
      · subst same
        exact ⟨entry, found, mem_append_right _ mem_cons_self⟩
      · have before : router.isEnabled other = true := by
          simpa [same] using (isEnabled_enable router topic other).symm.trans enabled
        obtain ⟨current, present, spawned⟩ := consistent.started other before
        exact ⟨current, present, mem_append_left _ spawned⟩
    · intro other nonempty
      refine (isEnabled_enable router topic other).trans ?_
      rw [consistent.enabled other nonempty, Bool.or_true]

theorem consistent_registerWorker {router : ConsumerRouter} (consistent : Consistent router)
    (found : router.localTopics.lookup worker.topic = some entry)
    (enabled : router.isEnabled worker.topic = true) (fresh : worker.name ∉ router.workerIndex) :
    Consistent ((router.attachInbox worker.name).registerWorker worker.topic worker).2 := by
  have unlisted : ∀ topic, worker.name ∉ router.listed topic := by
    intro topic member
    obtain ⟨other, present, _⟩ := (consistent.members topic worker.name).mp member
    exact fresh (lookup_isSome.mp (by rw [present]; rfl))
  have lists : ∀ topic, ((router.attachInbox worker.name).registerWorker worker.topic worker).2.listed topic =
      if topic = worker.topic then router.listed worker.topic ++ [worker.name] else router.listed topic := by
    intro topic
    rw [listed_of_lookup found]
    simp only [registerWorker, indexWorker, attachInbox, found]
    exact listed_listWorker _ _ _ _ _
  simp only [registerWorker, indexWorker, attachInbox, found] at lists ⊢
  refine ⟨?_, ?_, ?_, ?_, ?_, ?_, ?_⟩
  · intro name
    simp only [bumpGeneration, publishWorker, listWorker, mem_insert, consistent.inboxes name]
  · intro name other present
    obtain ⟨rfl, rfl⟩ | ⟨_, before⟩ := lookup_insert_cases present
    · rfl
    · exact consistent.named before
  · intro topic
    rw [lists topic]
    split
    · rw [← concat_eq_append]
      exact (consistent.distinct _).concat (unlisted _)
    · exact consistent.distinct topic
  · intro topic
    rw [lists topic, consistent.agreed, consistent.agreed]
    exact (published_publishWorker _ worker.topic worker.name topic).symm
  · intro topic name
    rw [lists topic]
    change _ ↔ ∃ other, (router.workerIndex.insert worker.name worker).lookup name = some other ∧ other.topic = topic
    by_cases new : name = worker.name
    · subst new
      by_cases own : topic = worker.topic
      · simp [own]
      · simp [own, unlisted, Ne.symm own]
    · rw [lookup_insert_ne new, ← consistent.members topic name]
      by_cases own : topic = worker.topic
      · subst own
        simp [new]
      · simp [own]
  · intro topic on
    obtain ⟨current, present, spawned⟩ := consistent.started topic on
    by_cases own : topic = worker.topic
    · subst own
      rw [found] at present
      cases present
      exact ⟨_, lookup_insert _, spawned⟩
    · exact ⟨current, (lookup_insert_ne own).trans present, spawned⟩
  · intro topic nonempty
    by_cases own : topic = worker.topic
    · subst own
      exact enabled
    · rw [lists topic, if_neg own] at nonempty
      exact consistent.enabled topic nonempty

theorem workerIndex_startDispatcher (router : ConsumerRouter) (topic : String) (queue : Nat) :
    (router.startDispatcher topic queue).workerIndex = router.workerIndex := by
  unfold startDispatcher
  split <;> rfl

theorem consistent_createWorker {router} (consistent : Consistent router) (fresh : worker.name ∉ router.workerIndex) :
    Consistent (router.createWorker worker).2 := by
  unfold createWorker
  split
  · exact consistent
  · next entry found =>
    rw [startDispatcher_attachInbox]
    apply consistent_registerWorker (consistent_startDispatcher consistent found)
    · rw [localTopics_startDispatcher]
      exact found
    · exact isEnabled_startDispatcher router worker.topic entry.queue
    · rw [workerIndex_startDispatcher]
      exact fresh

theorem consistent_delWorker {router} (consistent : Consistent router) (name : String) :
    Consistent (router.delWorker name).2 := by
  unfold delWorker
  split
  · have lists : ∀ topic, (((((router.unindexWorker name).detachInbox name).unlistWorker name).unpublishWorker
        name).bumpGeneration).listed topic = (router.listed topic).filter (fun other => other ≠ name) :=
      fun topic => listed_unlistWorker _ name topic
    refine ⟨?_, ?_, ?_, ?_, ?_, ?_, ?_⟩
    · intro other
      change other ∈ router.localInboxes.erase name ↔ other ∈ router.workerIndex.erase name
      rw [mem_erase, mem_erase, consistent.inboxes other]
    · intro other worker present
      exact consistent.named (lookup_erase_cases present).2
    · intro topic
      rw [lists topic]
      exact (consistent.distinct topic).filter _
    · intro topic
      rw [lists topic, consistent.agreed]
      exact (published_unpublishWorker _ name topic).symm
    · intro topic other
      rw [lists topic, mem_filter, consistent.members topic other]
      change _ ↔ ∃ worker, (router.workerIndex.erase name).lookup other = some worker ∧ worker.topic = topic
      by_cases same : other = name
      · subst same
        simp
      · simp [same]
    · intro topic enabled
      obtain ⟨entry, found, spawned⟩ := consistent.started topic enabled
      refine ⟨{ entry with workers := entry.workers.filter (fun other => other ≠ name) }, ?_, spawned⟩
      change (mapValues _ router.localTopics).lookup topic = _
      rw [lookup_mapValues, found]
      rfl
    · intro topic nonempty
      apply consistent.enabled topic
      intro empty
      rw [lists topic, empty] at nonempty
      exact nonempty rfl
  · exact consistent

theorem evictAll_inboxes {router} (names : List String)
    (inboxes : ∀ name, name ∈ router.localInboxes ↔ name ∈ router.workerIndex) (name : String) :
    name ∈ (names.foldl evict router).localInboxes ↔ name ∈ (names.foldl evict router).workerIndex := by
  induction names generalizing router with
  | nil => exact inboxes name
  | cons first rest ih =>
    apply ih
    intro other
    unfold evict
    split
    · change other ∈ router.localInboxes.erase first ↔ other ∈ router.workerIndex.erase first
      rw [mem_erase, mem_erase, inboxes other]
    · exact inboxes other

theorem lookup_delWorkers (router : ConsumerRouter) (topic name : String) : (router.delWorkers topic).2.workerIndex.lookup name =
    if name ∈ router.listed topic then none else router.workerIndex.lookup name :=
  lookup_evictAll (router.listed topic) router name

theorem published_delWorkers (router : ConsumerRouter) (topic other : String) :
    (router.delWorkers topic).2.published other = if other = topic then [] else router.published other := by
  simp only [delWorkers]
  rw [evictAll_frame]
  exact published_unpublishTopic _ topic other

theorem consistent_delWorkers {router} (consistent : Consistent router) (topic : String) :
    Consistent (router.delWorkers topic).2 := by
  have lists : ∀ other, (router.delWorkers topic).2.listed other = if other = topic then [] else router.listed other := by
    intro other
    simp only [delWorkers]
    rw [evictAll_frame]
    exact listed_removeTopic _ topic other
  have enables : ∀ other, (router.delWorkers topic).2.isEnabled other =
      (decide (other ≠ topic) && router.isEnabled other) := by
    intro other
    simp only [delWorkers]
    rw [evictAll_frame]
    exact isEnabled_disable _ topic other
  refine ⟨?_, ?_, ?_, ?_, ?_, ?_, ?_⟩
  · exact evictAll_inboxes (router.listed topic) consistent.inboxes
  · intro name worker present
    rw [lookup_delWorkers] at present
    split at present
    · cases present
    · exact consistent.named present
  · intro other
    rw [lists other]
    split
    · exact nodup_nil
    · exact consistent.distinct other
  · intro other
    rw [lists other, consistent.agreed other, published_delWorkers]
  · intro other name
    rw [lists other, lookup_delWorkers]
    -- A worker listed under the removed topic has that topic and no other.
    by_cases gone : name ∈ router.listed topic
    · obtain ⟨worker, present, rfl⟩ := (consistent.members topic name).mp gone
      by_cases same : other = worker.topic
      · simp [same, gone]
      · simp [same, gone, consistent.members other name, present, Ne.symm same]
    · rw [if_neg gone, ← consistent.members other name]
      by_cases same : other = topic
      · simp [same, gone]
      · simp [same]
  · intro other enabled
    rw [enables other, Bool.and_eq_true, decide_eq_true_eq] at enabled
    obtain ⟨entry, found, spawned⟩ := consistent.started other enabled.2
    refine ⟨entry, ?_, ?_⟩
    · simp only [delWorkers]
      rw [evictAll_frame]
      exact (lookup_erase_ne enabled.1).trans found
    · simp only [delWorkers]
      rw [evictAll_frame]
      exact spawned
  · intro other nonempty
    rw [lists other] at nonempty
    rw [enables other]
    by_cases same : other = topic
    · exact (nonempty (if_pos same)).elim
    · rw [if_neg same] at nonempty
      simp [same, consistent.enabled other nonempty]

theorem consistent_call {router next request} (consistent : Consistent router)
    (called : router.call request = some next) : Consistent next := by
  cases request with
  | register topic created =>
    cases called
    exact consistent_register consistent topic created
  | createWorker worker =>
    simp only [call] at called
    split at called
    · cases called
    · next fresh =>
      cases called
      exact consistent_createWorker consistent fresh
  | delWorker name =>
    cases called
    exact consistent_delWorker consistent name
  | delWorkers topic =>
    cases called
    exact consistent_delWorkers consistent topic
  | setPipeline topic pipeline =>
    cases called
    exact consistent_setPipeline consistent topic pipeline

section
variable {router : ConsumerRouter} (consistent : Consistent router)
include consistent

theorem mem_getWorkers (topic : String) (worker : Worker) :
    worker ∈ router.getWorkers topic ↔ router.workerIndex.lookup worker.name = some worker ∧ worker.topic = topic := by
  simp only [ConsumerRouter.getWorkers, mem_filterMap]
  constructor
  · rintro ⟨name, listed, found⟩
    obtain ⟨other, present, own⟩ := (consistent.members topic name).mp listed
    cases found.symm.trans present
    exact ⟨by rw [consistent.named found]; exact found, own⟩
  · rintro ⟨found, own⟩
    exact ⟨worker.name, (consistent.members topic worker.name).mpr ⟨worker, found, own⟩, found⟩

theorem mem_getAllWorkers (worker : Worker) :
    worker ∈ router.getAllWorkers ↔ router.workerIndex.lookup worker.name = some worker := by
  rw [getAllWorkers, List.mem_map]
  constructor
  · rintro ⟨⟨name, value⟩, member, rfl⟩
    have found := AList.mem_lookup_iff.mpr member
    exact (congrArg router.workerIndex.lookup (consistent.named found)).trans found
  · intro found
    exact ⟨⟨worker.name, worker⟩, mem_lookup_iff.mp found, rfl⟩

theorem getAllWorkers_names :
    router.getAllWorkers.map Worker.name = router.workerIndex.keys := by
  rw [getAllWorkers, List.map_map]
  apply List.map_congr_left
  intro entry member
  exact consistent.named (AList.mem_lookup_iff.mpr member)

theorem nodup_getWorkers (topic : String) :
    (router.getWorkers topic).Nodup := by
  refine (consistent.distinct topic).filterMap ?_
  intro name other worker first second
  exact (consistent.named first).symm.trans (consistent.named second)

theorem getAllWorkers_perm :
    (router.localTopics.keys.flatMap router.getWorkers).Perm router.getAllWorkers := by
  have all : router.getAllWorkers.Nodup := by
    apply List.Nodup.of_map Worker.name
    rw [getAllWorkers_names consistent]
    exact router.workerIndex.keys_nodup
  have each : (router.localTopics.keys.flatMap router.getWorkers).Nodup := by
    refine nodup_flatMap.mpr ⟨fun topic _ => nodup_getWorkers consistent topic, ?_⟩
    refine router.localTopics.keys_nodup.imp ?_
    intro topic other different worker first second
    exact different (((mem_getWorkers consistent topic worker).mp first).2.symm.trans
      ((mem_getWorkers consistent other worker).mp second).2)
  refine (perm_ext_iff_of_nodup each all).mpr fun worker => ?_
  rw [mem_flatMap, mem_getAllWorkers consistent]
  constructor
  · rintro ⟨topic, _, member⟩
    exact ((mem_getWorkers consistent topic worker).mp member).1
  · intro found
    have member := (mem_getWorkers consistent worker.topic worker).mpr ⟨found, rfl⟩
    have registered : worker.topic ∈ router.localTopics := by
      by_contra absent
      simp [ConsumerRouter.getWorkers, listed_of_not_mem absent] at member
    exact ⟨worker.topic, registered, member⟩

end

structure Represents (router : ConsumerRouter) : Prop where
  inboxes : ∀ name, name ∈ router.localInboxes ↔ name ∈ router.workerIndex
  distinct : ∀ topic entry, router.localTopics.lookup topic = some entry → entry.workers.Nodup
  dispatched : ∀ topic entry, router.localTopics.lookup topic = some entry →
    entry.workers = (router.dispatchWorkers.lookup topic).getD []
  members : ∀ topic entry, router.localTopics.lookup topic = some entry → ∀ name,
    name ∈ entry.workers ↔ ∃ worker, router.workerIndex.lookup name = some worker ∧ worker.topic = topic
  union : (router.localTopics.keys.flatMap router.getWorkers).Perm router.getAllWorkers
  disjoint : (router.getAllWorkers.map Worker.name).Nodup
  running : ∀ topic entry, router.localTopics.lookup topic = some entry → entry.workers ≠ [] →
    router.dispatchEnabled.lookup topic = some true ∧ ⟨topic, entry.queue⟩ ∈ router.dispatchers

theorem Consistent.represents {router} (consistent : Consistent router) : Represents router where
  inboxes := consistent.inboxes
  distinct := fun topic _ found => listed_of_lookup found ▸ consistent.distinct topic
  dispatched := fun topic _ found => (listed_of_lookup found).symm.trans (consistent.agreed topic)
  members := fun topic _ found => listed_of_lookup found ▸ consistent.members topic
  union := getAllWorkers_perm consistent
  disjoint := by
    rw [getAllWorkers_names consistent]
    exact router.workerIndex.keys_nodup
  running := by
    intro topic entry found nonempty
    have enabled := consistent.enabled topic (by rw [listed_of_lookup found]; exact nonempty)
    obtain ⟨current, present, spawned⟩ := consistent.started topic enabled
    cases found.symm.trans present
    exact ⟨eq_of_beq enabled, spawned⟩

/-- After every sequence of calls, failed ones included, the maps agree, the
workers of the topics partition the index, and a topic with workers has a
dispatcher on its current queue. -/
theorem router_maps_agree {calls : List RouterCall} {router : ConsumerRouter}
    (ran : run ConsumerRouter.call {} calls = some router) : Represents router :=
  (run_preserves Consistent consistent_call consistent_init ran).represents

/-- A topic is given up with its workers and registered again on a new queue; one
worker is deleted, and four calls fail. -/
def reusedTopic : List RouterCall :=
  [.register "orders" (.ok 0), .register "orders" (.ok 1), .createWorker { topic := "orders", name := "first" },
    .delWorkers "orders", .createWorker { topic := "orders", name := "second" }, .setPipeline "orders" 7,
    .register "orders" (.ok 1), .createWorker { topic := "orders", name := "third" },
    .createWorker { topic := "orders", name := "fourth" }, .delWorker "third", .delWorker "third"]

theorem reusedTopic_represents : ∃ router, run ConsumerRouter.call {} reusedTopic = some router ∧ Represents router := by
  have reached : (run ConsumerRouter.call {} reusedTopic).isSome := by decide +kernel
  obtain ⟨router, ran⟩ := isSome_iff_exists.mp reached
  exact ⟨router, ran, router_maps_agree ran⟩

theorem startDispatcher_frame (router : ConsumerRouter) (topic : String) (queue : Nat) :
    ∃ enabled dispatchers,
      router.startDispatcher topic queue = { router with dispatchEnabled := enabled, dispatchers := dispatchers } := by
  unfold startDispatcher
  split
  · exact ⟨_, _, rfl⟩
  · exact ⟨_, _, rfl⟩

theorem createWorker_maps {router : ConsumerRouter}
    (found : router.localTopics.lookup worker.topic = some entry) :
    (router.createWorker worker).2.channels = router.channels + 1 ∧
      (router.createWorker worker).2.localInboxes = router.localInboxes.insert worker.name router.channels ∧
      (router.createWorker worker).2.localTopics =
        router.localTopics.insert worker.topic { entry with workers := entry.workers ++ [worker.name] } ∧
      ∀ topic, (router.createWorker worker).2.published topic =
        if topic = worker.topic then router.published worker.topic ++ [worker.name] else router.published topic := by
  obtain ⟨enabled, dispatchers, started⟩ := startDispatcher_frame (router.attachInbox worker.name) worker.topic entry.queue
  have known : (router.attachInbox worker.name).localTopics.lookup worker.topic = some entry := found
  simp only [createWorker, found, started, registerWorker, indexWorker, known, bumpGeneration]
  exact ⟨rfl, rfl, rfl, published_publishWorker _ worker.topic worker.name⟩

/-- Deleting workers only takes entries out of the maps. -/
structure Shrinks (before after : ConsumerRouter) : Prop where
  channels : after.channels = before.channels
  entries : ∀ topic entry, after.localTopics.lookup topic = some entry →
    ∃ old, before.localTopics.lookup topic = some old ∧ old.queue = entry.queue
  inboxes : ∀ name channel, after.localInboxes.lookup name = some channel → before.localInboxes.lookup name = some channel
  published : ∀ topic, ∀ name ∈ after.published topic, name ∈ before.published topic

theorem delWorker_shrinks (router : ConsumerRouter) (name : String) : Shrinks router (router.delWorker name).2 := by
  unfold delWorker
  split
  · refine ⟨rfl, fun topic entry found => ?_, fun other channel found => ?_, fun topic other member => ?_⟩
    · simp only [bumpGeneration, unpublishWorker, unlistWorker, lookup_mapValues, map_eq_some_iff] at found
      obtain ⟨old, present, rfl⟩ := found
      exact ⟨old, present, rfl⟩
    · exact (lookup_erase_cases found).2
    · have before : other ∈ (((router.unindexWorker name).detachInbox name).unlistWorker name).published topic := by
        have kept := published_unpublishWorker (((router.unindexWorker name).detachInbox name).unlistWorker name) name topic
        exact mem_of_mem_filter (kept ▸ member)
      exact before
  · exact ⟨rfl, fun _ entry found => ⟨entry, found, rfl⟩, fun _ _ found => found, fun _ _ member => member⟩

theorem lookup_evictAll_inboxes (names : List String) (router : ConsumerRouter) {channel}
    (found : (names.foldl evict router).localInboxes.lookup name = some channel) :
    router.localInboxes.lookup name = some channel := by
  induction names generalizing router with
  | nil => exact found
  | cons first rest ih =>
    have before := ih (router.evict first) found
    unfold evict at before
    split at before
    · exact (lookup_erase_cases before).2
    · exact before

theorem delWorkers_shrinks (router : ConsumerRouter) (topic : String) : Shrinks router (router.delWorkers topic).2 := by
  have frame := evictAll_frame (router.listed topic) router
  refine ⟨?_, fun other entry found => ?_, fun name channel found => ?_, fun other name member => ?_⟩
  · simp only [delWorkers, bumpGeneration, disable, unpublishTopic, removeTopic]
    rw [frame]
  · simp only [delWorkers, bumpGeneration, disable, unpublishTopic, removeTopic] at found
    rw [frame] at found
    exact ⟨entry, (lookup_erase_cases found).2, rfl⟩
  · exact lookup_evictAll_inboxes (router.listed topic) router found
  · rw [published_delWorkers] at member
    split at member
    · cases member
    · exact member

theorem workerIndex_createWorker {router : ConsumerRouter}
    (found : router.localTopics.lookup worker.topic = some entry) :
    (router.createWorker worker).2.workerIndex = router.workerIndex.insert worker.name worker := by
  obtain ⟨enabled, dispatchers, started⟩ := startDispatcher_frame (router.attachInbox worker.name) worker.topic entry.queue
  have known : (router.attachInbox worker.name).localTopics.lookup worker.topic = some entry := found
  simp only [createWorker, found, started, registerWorker, indexWorker, known, bumpGeneration]
  rfl

theorem mem_workerIndex_delWorkers {router : ConsumerRouter}
    (member : name ∈ (router.delWorkers topic).2.workerIndex) : name ∈ router.workerIndex := by
  rw [← lookup_isSome] at member ⊢
  rw [lookup_delWorkers] at member
  split at member
  · cases member
  · exact member

theorem mem_workerIndex_call {router next : ConsumerRouter} {request} (called : router.call request = some next)
    (member : name ∈ next.workerIndex) :
    name ∈ router.workerIndex ∨ ∃ worker, request = .createWorker worker ∧ worker.name = name := by
  cases request with
  | register topic created =>
    obtain ⟨topics, framed⟩ := register_frame router topic created
    cases called
    rw [framed] at member
    exact .inl member
  | createWorker worker =>
    simp only [ConsumerRouter.call] at called
    split at called
    · cases called
    · cases called
      cases found : router.localTopics.lookup worker.topic with
      | none =>
        simp only [createWorker, found] at member
        exact .inl member
      | some entry =>
        rw [workerIndex_createWorker found, mem_insert] at member
        exact member.symm.imp_right fun same => ⟨worker, rfl, same.symm⟩
  | delWorker name =>
    cases called
    unfold delWorker at member
    split at member
    · exact .inl (mem_erase.mp member).2
    · exact .inl member
  | delWorkers topic =>
    cases called
    exact .inl (mem_workerIndex_delWorkers member)
  | setPipeline topic pipeline =>
    cases called
    unfold setPipeline at member
    split at member
    · exact .inl member
    · exact .inl member

end EventBase.Proofs.RouterMaps
