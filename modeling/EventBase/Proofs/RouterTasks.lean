import EventBase.RouterTasks
import EventBase.Proofs.RouterMaps

/-! What the interleaved registration calls keep true of the router's maps: a
deleted worker has no inbox again, and a created one stays where a dispatcher
looks for it until it is taken from the index. -/

namespace EventBase.Proofs.RouterTasks

open EventBase Foundations RouterMaps List AList

/-- The worker is in every map a dispatcher reads, and in those it is deleted by. -/
structure Served (run : RouterRun) (name topic : String) : Prop where
  indexed : name ∈ run.router.workerIndex
  mapped : name ∈ run.router.localInboxes
  listed : name ∈ run.router.listed topic
  published : name ∈ run.router.published topic

structure Registered (run : RouterRun) : Prop where
  indexed : ∀ name ∈ run.router.workerIndex, name ∈ run.known
  listed : ∀ topic, ∀ name ∈ run.router.listed topic, name ∈ run.known
  doomed : ∀ name ∈ run.doomed, name ∈ run.known
  deleted : ∀ name ∈ run.deleted, name ∈ run.known ∧ name ∉ run.router.localInboxes
  served : ∀ name topic, (name, topic) ∈ run.created → name ∉ run.doomed → Served run name topic

structure Channels (run : RouterRun) : Prop where
  mapped : ∀ {name channel}, run.router.localInboxes.lookup name = some channel → ⟨name, channel⟩ ∈ run.attached
  numbered : ∀ inbox ∈ run.attached, inbox.channel < run.router.channels
  separate : ∀ first ∈ run.attached, ∀ second ∈ run.attached, first.channel = second.channel → first = second

def Permits (run : RouterRun) : RouterUpdate → Prop
  | .attach name => name ∉ run.known
  | .list topic entry name => run.router.localTopics.lookup topic = some entry ∧ name ∈ run.known
  | .created topic name => Served run name topic
  | .unindex name => name ∈ run.router.workerIndex
  | .detach name | .unlist name | .unpublish name => name ∈ run.doomed
  | .removeTopic topic | .unpublishTopic topic => ∀ name, (name, topic) ∈ run.created → name ∈ run.doomed
  | .deleted names => ∀ name ∈ names, name ∈ run.known ∧ name ∉ run.router.localInboxes
  | _ => True

section
variable {run : RouterRun} {router : ConsumerRouter} {task next : RouterTask} {change : RouterUpdate}

theorem mem_listed_listWorker {topic entry name} (found : router.localTopics.lookup topic = some entry)
    (other member : String) :
    member ∈ (router.listWorker topic entry name).listed other ↔
      member ∈ router.listed other ∨ other = topic ∧ member = name := by
  rw [listed_listWorker]
  by_cases same : other = topic
  · simp [same, listed_of_lookup found]
  · simp [same]

theorem mem_published_publishWorker (router : ConsumerRouter) (topic name other member : String) :
    member ∈ (router.publishWorker topic name).published other ↔
      member ∈ router.published other ∨ other = topic ∧ member = name := by
  rw [published_publishWorker]
  by_cases same : other = topic <;> simp [same]

theorem mem_listed_unlistWorker (router : ConsumerRouter) (name topic member : String) :
    member ∈ (router.unlistWorker name).listed topic ↔ member ∈ router.listed topic ∧ member ≠ name := by
  simp [listed_unlistWorker]

theorem mem_published_unpublishWorker (router : ConsumerRouter) (name topic member : String) :
    member ∈ (router.unpublishWorker name).published topic ↔ member ∈ router.published topic ∧ member ≠ name := by
  simp [published_unpublishWorker]

theorem mem_listed_removeTopic (router : ConsumerRouter) (topic other member : String) :
    member ∈ (router.removeTopic topic).listed other ↔ member ∈ router.listed other ∧ other ≠ topic := by
  rw [listed_removeTopic]
  by_cases same : other = topic <;> simp [same]

theorem mem_published_unpublishTopic (router : ConsumerRouter) (topic other member : String) :
    member ∈ (router.unpublishTopic topic).published other ↔ member ∈ router.published other ∧ other ≠ topic := by
  rw [published_unpublishTopic]
  by_cases same : other = topic <;> simp [same]

theorem mem_index_update {name} (indexed : name ∈ run.router.workerIndex) (kept : change ≠ .unindex name) :
    name ∈ (run.update change).router.workerIndex := by
  cases change with
  | index worker => exact (mem_insert _).mpr (.inr indexed)
  | unindex other => exact mem_erase.mpr ⟨fun same => kept (same ▸ rfl), indexed⟩
  | _ => exact indexed

theorem mem_inboxes_update {name} (mapped : name ∈ run.router.localInboxes) (kept : change ≠ .detach name) :
    name ∈ (run.update change).router.localInboxes := by
  cases change with
  | attach other => exact (mem_insert _).mpr (.inr mapped)
  | detach other => exact mem_erase.mpr ⟨fun same => kept (same ▸ rfl), mapped⟩
  | _ => exact mapped

theorem served_update {name topic} (served : Served run name topic) (created : (name, topic) ∈ run.created)
    (safe : name ∉ run.doomed) (kept : change ≠ .unindex name) (permits : Permits run change) :
    Served (run.update change) name topic := by
  refine ⟨mem_index_update served.indexed kept, mem_inboxes_update served.mapped ?_, ?_, ?_⟩
  · rintro rfl
    exact safe permits
  · cases change with
    | list => exact (mem_listed_listWorker permits.1 topic name).mpr (.inl served.listed)
    | unlist => exact (mem_listed_unlistWorker _ _ _ _).mpr ⟨served.listed, fun same => safe (same ▸ permits)⟩
    | removeTopic =>
      exact (mem_listed_removeTopic _ _ _ _).mpr ⟨served.listed, fun same => safe (permits name (same ▸ created))⟩
    | _ => exact served.listed
  · cases change with
    | publish => exact (mem_published_publishWorker _ _ _ _ _).mpr (.inl served.published)
    | unpublish => exact (mem_published_unpublishWorker _ _ _ _).mpr ⟨served.published, fun same => safe (same ▸ permits)⟩
    | unpublishTopic =>
      exact (mem_published_unpublishTopic _ _ _ _).mpr ⟨served.published, fun same => safe (permits name (same ▸ created))⟩
    | _ => exact served.published

theorem known_update {name} (known : name ∈ run.known) : name ∈ (run.update change).known := by
  cases change with
  | index worker => exact mem_cons_of_mem _ known
  | _ => exact known

theorem registered_update (registered : Registered run) (permits : Permits run change) :
    Registered (run.update change) := by
  refine ⟨fun name indexed => ?_, fun topic name listed => ?_, fun name doomed => ?_, fun name removed => ?_,
    fun name topic created kept => ?_⟩
  · cases change with
    | index worker =>
      obtain rfl | before := (mem_insert _).mp indexed
      · exact mem_cons_self
      · exact mem_cons_of_mem _ (registered.indexed name before)
    | unindex other => exact registered.indexed name (mem_erase.mp indexed).2
    | _ => exact registered.indexed name indexed
  · cases change with
    | list other entry member =>
      obtain before | ⟨_, rfl⟩ := (mem_listed_listWorker permits.1 topic name).mp listed
      · exact registered.listed topic name before
      · exact permits.2
    | unlist other => exact registered.listed topic name ((mem_listed_unlistWorker _ _ _ _).mp listed).1
    | removeTopic other => exact registered.listed topic name ((mem_listed_removeTopic _ _ _ _).mp listed).1
    | _ => exact known_update (registered.listed topic name listed)
  · cases change with
    | unindex other =>
      obtain rfl | before := mem_cons.mp doomed
      · exact registered.indexed _ permits
      · exact registered.doomed name before
    | _ => exact known_update (registered.doomed name doomed)
  · cases change with
    | attach other =>
      obtain ⟨known, detached⟩ := registered.deleted name removed
      refine ⟨known, fun mapped => ?_⟩
      obtain rfl | before := (mem_insert _).mp mapped
      · exact permits known
      · exact detached before
    | detach other =>
      obtain ⟨known, detached⟩ := registered.deleted name removed
      exact ⟨known, fun mapped => detached (mem_erase.mp mapped).2⟩
    | deleted names =>
      obtain new | before := mem_append.mp removed
      · exact permits name new
      · exact registered.deleted name before
    | _ => exact ⟨known_update (registered.deleted name removed).1, (registered.deleted name removed).2⟩
  · cases change with
    | created other worker =>
      obtain same | before := mem_cons.mp created
      · cases same
        exact { permits with }
      · exact { registered.served name topic before kept with }
    | unindex other =>
      have safe : name ∉ run.doomed := fun doomed => kept (mem_cons_of_mem _ doomed)
      refine served_update (registered.served name topic created safe) created safe ?_ permits
      rintro ⟨⟩
      exact kept mem_cons_self
    | _ => exact served_update (registered.served name topic created kept) created kept (by rintro ⟨⟩) permits

theorem channels_update (channels : Channels run) :
    Channels (run.update change) := by
  cases change with
  | attach name =>
    refine ⟨?_, ?_, ?_⟩
    · intro other channel mapped
      obtain ⟨rfl, rfl⟩ | ⟨_, before⟩ := lookup_insert_cases mapped
      · exact mem_cons_self
      · exact mem_cons_of_mem _ (channels.mapped before)
    · intro inbox member
      obtain rfl | before := mem_cons.mp member
      · exact Nat.lt_succ_self _
      · exact Nat.lt_succ_of_lt (channels.numbered inbox before)
    · intro first left second right same
      obtain rfl | earlier := mem_cons.mp left <;> obtain rfl | later := mem_cons.mp right
      · rfl
      · exact absurd same.symm (Nat.ne_of_lt (channels.numbered second later))
      · exact absurd same (Nat.ne_of_lt (channels.numbered first earlier))
      · exact channels.separate first earlier second later same
  | detach name => exact { channels with mapped := fun mapped => channels.mapped (lookup_erase_cases mapped).2 }
  | _ => exact { channels with }

def Knows (run : RouterRun) : RouterTask → Prop
  | .reading worker | .attaching worker _ => worker.name ∉ run.known
  | .enabling worker _ | .spawning worker _ | .indexing .createWorker _ worker =>
    worker.name ∉ run.known ∧ worker.name ∈ run.router.localInboxes
  | .listing caller _ worker =>
    worker.name ∈ run.known ∧
      (caller = .createWorker → worker.name ∈ run.router.workerIndex ∧ worker.name ∈ run.router.localInboxes)
  | .publishing caller topic worker =>
    caller = .createWorker →
      (worker.name ∈ run.router.workerIndex ∧ worker.name ∈ run.router.localInboxes) ∧
        worker.name ∈ run.router.listed topic
  | .announcing caller topic worker => caller = .createWorker → Served run worker.name topic
  | .detaching name => name ∈ run.doomed ∧ name ∉ run.router.workerIndex
  | .unlisting name | .unpublishing name | .retiring name => name ∈ run.doomed ∧ name ∉ run.router.localInboxes
  | .evicting topic workers remaining =>
    (∀ name ∈ run.router.listed topic, name ∈ workers) ∧
      ∀ name ∈ workers, name ∈ run.known ∧
        (name ∈ remaining ∨ name ∉ run.router.workerIndex ∧ name ∉ run.router.localInboxes)
  | .evictingInbox topic workers evicted remaining =>
    evicted ∈ run.doomed ∧ (∀ name ∈ run.router.listed topic, name ∈ workers) ∧
      ∀ name ∈ workers, name ∈ run.known ∧
        (name ∈ remaining ∨ name ∉ run.router.workerIndex ∧ (name = evicted ∨ name ∉ run.router.localInboxes))
  | .dropping topic workers | .withdrawing topic workers | .disabling topic workers | .closing topic workers =>
    (∀ name, (name, topic) ∈ run.created → name ∈ run.doomed) ∧
      ∀ name ∈ workers, name ∈ run.known ∧ name ∉ run.router.localInboxes
  | _ => True

def reserves : RouterTask → Option String
  | .reading worker | .attaching worker _ | .enabling worker _ | .spawning worker _ | .indexing _ _ worker =>
    some worker.name
  | _ => none

def detaches : RouterTask → Option String
  | .detaching name | .evictingInbox _ _ name _ => some name
  | _ => none

inductive Accesses (router : ConsumerRouter) : RouterTask → RouterTask → RouterUpdate → Prop
  | readEntry {worker} {entry : TopicEntry} : Accesses router (.reading worker) (.attaching worker entry.queue) .skip
  | noEntry {worker error} : Accesses router (.reading worker) (.finished (some error)) .skip
  | attach {worker queue} : Accesses router (.attaching worker queue) (.enabling worker queue) (.attach worker.name)
  | enabled {worker queue} : Accesses router (.enabling worker queue) (.indexing .createWorker worker.topic worker) .skip
  | enable {worker queue} : Accesses router (.enabling worker queue) (.spawning worker queue) (.enable worker.topic)
  | spawn {worker queue} :
      Accesses router (.spawning worker queue) (.indexing .createWorker worker.topic worker) (.spawn worker.topic queue)
  | index {caller topic worker} : Accesses router (.indexing caller topic worker) (.listing caller topic worker) (.index worker)
  | list {caller topic worker entry} (found : router.localTopics.lookup topic = some entry) :
      Accesses router (.listing caller topic worker) (.publishing caller topic worker) (.list topic entry worker.name)
  | unlisted {caller topic worker error} : Accesses router (.listing caller topic worker) (.finished (some error)) .skip
  | publish {caller topic worker} :
      Accesses router (.publishing caller topic worker) (.announcing caller topic worker) (.publish topic worker.name)
  | created {topic worker} :
      Accesses router (.announcing .createWorker topic worker) (.finished none) (.created topic worker.name)
  | registered {topic worker} : Accesses router (.announcing .outside topic worker) (.finished none) .registered
  | unindex {name} (indexed : name ∈ router.workerIndex) : Accesses router (.removing name) (.detaching name) (.unindex name)
  | unknown {name error} : Accesses router (.removing name) (.finished (some error)) .skip
  | detach {name} : Accesses router (.detaching name) (.unlisting name) (.detach name)
  | unlist {name} : Accesses router (.unlisting name) (.unpublishing name) (.unlist name)
  | unpublish {name} : Accesses router (.unpublishing name) (.retiring name) (.unpublish name)
  | retire {name} : Accesses router (.retiring name) (.finished none) (.deleted [name])
  | clear {topic} : Accesses router (.clearing topic) (.evicting topic (router.listed topic) (router.listed topic)) .skip
  | emptied {topic workers} : Accesses router (.evicting topic workers []) (.dropping topic workers) .skip
  | evict {topic workers name remaining} (indexed : name ∈ router.workerIndex) :
      Accesses router (.evicting topic workers (name :: remaining)) (.evictingInbox topic workers name remaining)
        (.unindex name)
  | missing {topic workers name remaining} (absent : name ∉ router.workerIndex) :
      Accesses router (.evicting topic workers (name :: remaining)) (.evicting topic workers remaining) .skip
  | evictInbox {topic workers name remaining} :
      Accesses router (.evictingInbox topic workers name remaining) (.evicting topic workers remaining) (.detach name)
  | drop {topic workers} : Accesses router (.dropping topic workers) (.withdrawing topic workers) (.removeTopic topic)
  | withdraw {topic workers} : Accesses router (.withdrawing topic workers) (.disabling topic workers) (.unpublishTopic topic)
  | disable {topic workers} : Accesses router (.disabling topic workers) (.closing topic workers) (.disable topic)
  | close {topic workers} : Accesses router (.closing topic workers) (.finished none) (.deleted workers)

theorem accesses_of_next (accessed : task.next router = some (next, change)) : Accesses router task next change := by
  revert accessed
  fun_cases RouterTask.next router task
  all_goals
    intro accessed
    cases accessed
  · exact .readEntry
  · exact .noEntry
  · exact .attach
  · exact .enabled
  · exact .enable
  · exact .spawn
  · exact .index
  · next found => exact .list found
  · exact .unlisted
  · exact .publish
  · exact .created
  · exact .registered
  · next indexed => exact .unindex indexed
  · exact .unknown
  · exact .detach
  · exact .unlist
  · exact .unpublish
  · exact .retire
  · exact .clear
  · exact .emptied
  · next indexed => exact .evict indexed
  · next absent => exact .missing absent
  · exact .evictInbox
  · exact .drop
  · exact .withdraw
  · exact .disable
  · exact .close

structure Tracked (run : RouterRun) : Prop where
  registered : Registered run
  channels : Channels run
  known : ∀ name ∈ run.known, name ∈ run.used
  reserved : ∀ {index : Nat} {task name}, run.tasks[index]? = some task → reserves task = some name → name ∈ run.used
  distinct : ∀ {first second : Nat} {left right name}, run.tasks[first]? = some left → run.tasks[second]? = some right →
    reserves left = some name → reserves right = some name → first = second ∨ name ∈ run.known
  locked : ∀ {index : Nat} {task}, run.tasks[index]? = some task → task.holds = true → run.writer = some index
  knows : ∀ {index : Nat} {task}, run.tasks[index]? = some task → Knows run task
  orphans : ∀ name ∈ run.known, name ∈ run.router.localInboxes →
    name ∈ run.router.workerIndex ∨ ∃ (index : Nat) (task : _), run.tasks[index]? = some task ∧ detaches task = some name

theorem Tracked.indexed_of_mapped (tracked : Tracked run) {index : Nat} (found : run.tasks[index]? = some task)
    (holds : task.holds = true) (whole : detaches task = none) {name} (known : name ∈ run.known)
    (mapped : name ∈ run.router.localInboxes) : name ∈ run.router.workerIndex := by
  obtain indexed | ⟨other, detaching, present, detached⟩ := tracked.orphans name known mapped
  · exact indexed
  · have holding : detaching.holds = true := by cases detaching <;> first | rfl | cases detached
    have same := Option.some.inj ((tracked.locked found holds).symm.trans (tracked.locked present holding))
    subst same
    cases found.symm.trans present
    rw [whole] at detached
    cases detached

theorem permits_of_accesses (registered : Registered run) (knows : Knows run task)
    (accesses : Accesses run.router task next change) :
    Permits run change := by
  cases accesses with
  | attach => exact knows
  | list found => exact ⟨found, knows.1⟩
  | created => exact knows rfl
  | unindex indexed | evict indexed => exact indexed
  | detach | evictInbox | unlist | unpublish | drop | withdraw => exact knows.1
  | retire =>
    intro other member
    cases mem_singleton.mp member
    exact ⟨registered.doomed _ knows.1, knows.2⟩
  | close => exact knows.2
  | _ => trivial

theorem knows_next (tracked : Tracked run) {index : Nat} (found : run.tasks[index]? = some task)
    (accesses : Accesses run.router task next change) :
    Knows (run.update change) next := by
  have knows := tracked.knows found
  cases accesses with
  | attach => exact ⟨knows, (mem_insert _).mpr (.inl rfl)⟩
  | readEntry | enabled | enable | spawn | unlist | unpublish | drop | withdraw | disable => exact knows
  | index =>
    refine ⟨mem_cons_self, ?_⟩
    rintro rfl
    exact ⟨(mem_insert _).mpr (.inl rfl), knows.2⟩
  | list present =>
    exact fun created => ⟨knows.2 created, (mem_listed_listWorker present _ _).mpr (.inr ⟨rfl, rfl⟩)⟩
  | publish =>
    intro created
    obtain ⟨⟨indexed, mapped⟩, listed⟩ := knows created
    exact ⟨indexed, mapped, listed, (mem_published_publishWorker _ _ _ _ _).mpr (.inr ⟨rfl, rfl⟩)⟩
  | unindex => exact ⟨mem_cons_self, fun kept => (mem_erase.mp kept).1 rfl⟩
  | detach => exact ⟨knows.1, fun kept => (mem_erase.mp kept).1 rfl⟩
  | clear => exact ⟨fun name listed => listed, fun name listed => ⟨tracked.registered.listed _ name listed, .inl listed⟩⟩
  | @emptied topic workers =>
    obtain ⟨listed, evicted⟩ := knows
    have out : ∀ name ∈ workers, name ∉ run.router.workerIndex ∧ name ∉ run.router.localInboxes :=
      fun name member => (evicted name member).2.resolve_left not_mem_nil
    refine ⟨?_, fun name member => ⟨(evicted name member).1, (out name member).2⟩⟩
    intro name created
    by_contra kept
    have served := tracked.registered.served name topic created kept
    exact (out name (listed name served.listed)).1 served.indexed
  | evict =>
    obtain ⟨listed, evicted⟩ := knows
    refine ⟨mem_cons_self, listed, fun other member => ⟨(evicted other member).1, ?_⟩⟩
    obtain waiting | ⟨out, detached⟩ := (evicted other member).2
    · obtain rfl | later := mem_cons.mp waiting
      · exact .inr ⟨fun kept => (mem_erase.mp kept).1 rfl, .inl rfl⟩
      · exact .inl later
    · exact .inr ⟨fun kept => out (mem_erase.mp kept).2, .inr detached⟩
  | missing absent =>
    obtain ⟨listed, evicted⟩ := knows
    refine ⟨listed, fun other member => ⟨(evicted other member).1, ?_⟩⟩
    obtain waiting | out := (evicted other member).2
    · obtain rfl | later := mem_cons.mp waiting
      · refine .inr ⟨absent, fun mapped => absent ?_⟩
        exact tracked.indexed_of_mapped found rfl rfl (evicted _ member).1 mapped
      · exact .inl later
    · exact .inr out
  | evictInbox =>
    obtain ⟨_, listed, evicted⟩ := knows
    refine ⟨listed, fun other member => ⟨(evicted other member).1, ?_⟩⟩
    obtain waiting | ⟨out, rfl | detached⟩ := (evicted other member).2
    · exact .inl waiting
    · exact .inr ⟨out, fun kept => (mem_erase.mp kept).1 rfl⟩
    · exact .inr ⟨out, fun kept => detached (mem_erase.mp kept).2⟩
  | _ => trivial

inductive Unlocked : RouterUpdate → Prop
  | skip : Unlocked .skip
  | attach (name : String) : Unlocked (.attach name)
  | enable (topic : String) : Unlocked (.enable topic)
  | spawn (topic : String) (queue : Nat) : Unlocked (.spawn topic queue)

theorem unlocked_of_accesses (accesses : Accesses router task next change) (free : task.holds = false)
    (waits : task.acquires = false) :
    Unlocked change := by
  cases accesses with
  | readEntry | noEntry | enabled => exact .skip
  | attach => exact .attach _
  | enable => exact .enable _
  | spawn => exact .spawn _ _
  | index | unindex | unknown | clear => cases waits
  | _ => cases free

theorem knows_unlocked (registered : Registered run) {other} (knows : Knows run other) (unlocked : Unlocked change)
    (permits : Permits run change) :
    Knows (run.update change) other := by
  cases unlocked with
  | skip => exact knows
  | attach name =>
    have mapped : ∀ {other}, other ∈ run.router.localInboxes → other ∈ (run.router.attachInbox name).localInboxes :=
      fun mapped => (mem_insert _).mpr (.inr mapped)
    have detached : ∀ {other}, other ∈ run.known → other ∉ run.router.localInboxes →
        other ∉ (run.router.attachInbox name).localInboxes := by
      intro other known detached mapped
      obtain rfl | before := (mem_insert _).mp mapped
      · exact permits known
      · exact detached before
    cases other with
    | enabling | spawning => exact ⟨knows.1, mapped knows.2⟩
    | indexing caller topic worker =>
      cases caller
      · exact ⟨knows.1, mapped knows.2⟩
      · trivial
    | listing => exact ⟨knows.1, fun created => ⟨(knows.2 created).1, mapped (knows.2 created).2⟩⟩
    | publishing => exact fun created => ⟨⟨(knows created).1.1, mapped (knows created).1.2⟩, (knows created).2⟩
    | announcing => exact fun created => { knows created with mapped := mapped (knows created).mapped }
    | unlisting | unpublishing | retiring => exact ⟨knows.1, detached (registered.doomed _ knows.1) knows.2⟩
    | evicting topic workers remaining =>
      refine ⟨knows.1, fun name member => ⟨(knows.2 name member).1, ?_⟩⟩
      exact (knows.2 name member).2.imp_right fun out => ⟨out.1, detached (knows.2 name member).1 out.2⟩
    | evictingInbox topic workers evicted remaining =>
      refine ⟨knows.1, knows.2.1, fun name member => ⟨(knows.2.2 name member).1, ?_⟩⟩
      exact (knows.2.2 name member).2.imp_right fun out =>
        ⟨out.1, out.2.imp_right (detached (knows.2.2 name member).1)⟩
    | dropping | withdrawing | disabling | closing =>
      exact ⟨knows.1, fun name member => ⟨(knows.2 name member).1, detached (knows.2 name member).1 (knows.2 name member).2⟩⟩
    | _ => exact knows
  | enable topic | spawn topic queue =>
    cases other with
    | announcing => exact fun created => { knows created with }
    | indexing caller topic worker => cases caller <;> exact knows
    | _ => exact knows

theorem mem_known_update {name} (known : name ∈ (run.update change).known) :
    name ∈ run.known ∨ ∃ worker, change = .index worker ∧ worker.name = name := by
  cases change with
  | index worker =>
    obtain rfl | before := mem_cons.mp known
    · exact .inr ⟨worker, rfl, rfl⟩
    · exact .inl before
  | _ => exact .inl known

theorem knows_waiting (registered : Registered run) {other} (knows : Knows run other) (permits : Permits run change)
    (free : other.holds = false)
    (own : ∀ worker, change = .index worker → reserves other = some worker.name → worker.name ∈ run.known) :
    Knows (run.update change) other := by
  have unknown : ∀ {name}, reserves other = some name → name ∉ run.known → name ∉ (run.update change).known := by
    intro name reserved fresh known
    obtain before | ⟨worker, indexed, rfl⟩ := mem_known_update known
    · exact fresh before
    · exact fresh (own worker indexed reserved)
  have mapped : ∀ {name}, name ∉ run.known → name ∈ run.router.localInboxes →
      name ∈ (run.update change).router.localInboxes := by
    intro name fresh mapped
    refine mem_inboxes_update mapped ?_
    rintro rfl
    exact fresh (registered.doomed name permits)
  cases other with
  | reading | attaching => exact unknown rfl knows
  | enabling | spawning => exact ⟨unknown rfl knows.1, mapped knows.1 knows.2⟩
  | indexing caller topic worker =>
    cases caller
    · exact ⟨unknown rfl knows.1, mapped knows.1 knows.2⟩
    · trivial
  | removing | clearing | finished => trivial
  | _ => cases free

theorem mem_inboxes_of_update {name} (mapped : name ∈ (run.update change).router.localInboxes)
    (new : change ≠ .attach name) :
    name ∈ run.router.localInboxes ∧ change ≠ .detach name := by
  cases change with
  | attach other =>
    obtain rfl | before := (mem_insert _).mp mapped
    · exact absurd rfl new
    · exact ⟨before, nofun⟩
  | detach other =>
    obtain ⟨different, before⟩ := mem_erase.mp mapped
    exact ⟨before, fun same => different (RouterUpdate.detach.inj same).symm⟩
  | _ => exact ⟨mapped, nofun⟩

theorem detaches_next (accesses : Accesses router task next change) {name} :
    (change = .unindex name → detaches next = some name) ∧ (detaches task = some name → change = .detach name) := by
  constructor
  · rintro rfl
    cases accesses <;> rfl
  · intro detached
    cases accesses <;> cases detached <;> rfl

theorem reserves_next (accesses : Accesses router task next change) {name} (reserved : reserves next = some name) :
    reserves task = some name := by
  cases accesses <;> first | exact reserved | cases reserved

theorem reserves_of_index {worker} (accesses : Accesses router task next (.index worker)) :
    reserves task = some worker.name := by
  cases accesses
  rfl

end

theorem update_frame (run : RouterRun) (change : RouterUpdate) :
    (run.update change).tasks = run.tasks ∧ (run.update change).writer = run.writer ∧
      (run.update change).used = run.used ∧ (run.update change).loops = run.loops ∧
        (run.update change).offers = run.offers := by
  cases change <;> exact ⟨rfl, rfl, rfl, rfl, rfl⟩

section
variable {run : RouterRun} (tasks : List RouterTask) (writer : Option Nat) (used : List String)
  (loops : Nat → DispatchLoop) (offers : List Offer)

theorem Registered.reframe (registered : Registered run) :
    Registered { run with tasks := tasks, writer := writer, used := used, loops := loops, offers := offers } :=
  { registered with served := fun name topic created kept => { registered.served name topic created kept with } }

theorem Knows.reframe {task} (knows : Knows run task) :
    Knows { run with tasks := tasks, writer := writer, used := used, loops := loops, offers := offers } task := by
  cases task with
  | announcing => exact fun created => { knows created with }
  | indexing caller topic worker => cases caller <;> exact knows
  | _ => exact knows

theorem Tracked.reframe (tracked : Tracked run) : Tracked { run with loops := loops, offers := offers } :=
  { tracked with
    registered := tracked.registered.reframe _ _ _ _ _
    channels := { tracked.channels with }
    knows := fun found => (tracked.knows found).reframe _ _ _ _ _ }

end

theorem holds_next {router task next change} (accesses : Accesses router task next change) (holds : next.holds = true) :
    task.holds = true ∨ task.acquires = true := by
  cases accesses <;> first | exact .inl rfl | exact .inr rfl | cases holds

def accessed (run : RouterRun) (index : Nat) (task next : RouterTask) (change : RouterUpdate) : RouterRun :=
  { run.update change with
    tasks := run.tasks.set index next
    writer := if next.holds then some index else if task.holds then none else run.writer }

section
variable {run : RouterRun} {index : Nat} {task next : RouterTask} {change : RouterUpdate}

theorem Tracked.excluded (tracked : Tracked run) (found : run.tasks[index]? = some task)
    (granted : task.acquires = true → run.writer = none) {other holder} (different : other ≠ index)
    (present : run.tasks[other]? = some holder) (holding : holder.holds = true) :
    task.holds = false ∧ task.acquires = false := by
  have writer := tracked.locked present holding
  constructor
  · refine Bool.eq_false_iff.mpr fun holds => different ?_
    exact Option.some.inj (writer.symm.trans (tracked.locked found holds))
  · refine Bool.eq_false_iff.mpr fun acquires => ?_
    rw [granted acquires] at writer
    cases writer

theorem knows_other (tracked : Tracked run) (found : run.tasks[index]? = some task)
    (granted : task.acquires = true → run.writer = none) (accesses : Accesses run.router task next change) {other}
    {waiting} (different : other ≠ index) (present : run.tasks[other]? = some waiting) :
    Knows (run.update change) waiting := by
  have permits := permits_of_accesses tracked.registered (tracked.knows found) accesses
  cases holding : waiting.holds with
  | true =>
    obtain ⟨free, waits⟩ := tracked.excluded found granted different present holding
    exact knows_unlocked tracked.registered (tracked.knows present) (unlocked_of_accesses accesses free waits) permits
  | false =>
    refine knows_waiting tracked.registered (tracked.knows present) permits holding ?_
    rintro worker rfl reserved
    exact (tracked.distinct found present (reserves_of_index accesses) reserved).resolve_left (Ne.symm different)

theorem orphans_access (tracked : Tracked run) (found : run.tasks[index]? = some task)
    (accesses : Accesses run.router task next change) (name : String) (known : name ∈ (run.update change).known)
    (mapped : name ∈ (run.update change).router.localInboxes) :
    name ∈ (run.update change).router.workerIndex ∨
      ∃ (place : Nat) (holder : _), (run.tasks.set index next)[place]? = some holder ∧ detaches holder = some name := by
  have permits := permits_of_accesses tracked.registered (tracked.knows found) accesses
  have inside := (List.getElem?_eq_some_iff.mp found).1
  obtain before | ⟨worker, rfl, rfl⟩ := mem_known_update known
  · have old : change ≠ .attach name := by
      rintro rfl
      exact permits before
    obtain ⟨attached, kept⟩ := mem_inboxes_of_update mapped old
    obtain indexed | ⟨place, holder, present, detached⟩ := tracked.orphans name before attached
    · by_cases removed : change = .unindex name
      · exact .inr ⟨index, next, getElem?_set_self inside, (detaches_next accesses).1 removed⟩
      · exact .inl (mem_index_update indexed removed)
    · by_cases same : place = index
      · subst same
        cases found.symm.trans present
        exact absurd ((detaches_next accesses).2 detached) kept
      · exact .inr ⟨place, holder, (getElem?_set_ne (Ne.symm same)).trans present, detached⟩
  · exact .inl ((mem_insert _).mpr (.inl rfl))

theorem tracked_access (tracked : Tracked run) (found : run.tasks[index]? = some task)
    (granted : task.acquires = true → run.writer = none) (accesses : Accesses run.router task next change) :
    Tracked (accessed run index task next change) := by
  have permits := permits_of_accesses tracked.registered (tracked.knows found) accesses
  obtain ⟨_, _, used, _, _⟩ := update_frame run change
  refine ⟨(registered_update tracked.registered permits).reframe _ _ _ _ _, { channels_update tracked.channels with },
    ?_, ?_, ?_, ?_, ?_, orphans_access tracked found accesses⟩
  · intro name known
    change name ∈ (run.update change).used
    rw [used]
    obtain before | ⟨worker, rfl, rfl⟩ := mem_known_update known
    · exact tracked.known name before
    · exact tracked.reserved found (reserves_of_index accesses)
  · intro place other name present reserved
    change name ∈ (run.update change).used
    rw [used]
    obtain ⟨rfl, rfl⟩ | ⟨_, before⟩ := getElem?_set_cases present
    · exact tracked.reserved found (reserves_next accesses reserved)
    · exact tracked.reserved before reserved
  · intro first second left right name present also reserved shared
    have earlier : ∀ {place : Nat} {other}, (run.tasks.set index next)[place]? = some other → reserves other = some name →
        ∃ old, run.tasks[place]? = some old ∧ reserves old = some name := by
      intro place other present reserved
      obtain ⟨rfl, rfl⟩ | ⟨_, before⟩ := getElem?_set_cases present
      · exact ⟨task, found, reserves_next accesses reserved⟩
      · exact ⟨other, before, reserved⟩
    obtain ⟨_, present, reserved⟩ := earlier present reserved
    obtain ⟨_, also, shared⟩ := earlier also shared
    exact (tracked.distinct present also reserved shared).imp_right known_update
  · intro place other present holding
    obtain ⟨rfl, rfl⟩ | ⟨different, before⟩ := getElem?_set_cases present
    · exact if_pos holding
    · obtain ⟨free, waits⟩ := tracked.excluded found granted different before holding
      have idle : next.holds = false := by
        refine Bool.eq_false_iff.mpr fun holds => ?_
        rcases holds_next accesses holds with held | acquired
        · rw [free] at held
          cases held
        · rw [waits] at acquired
          cases acquired
      simp only [accessed, idle, free, Bool.false_eq_true, if_false]
      exact tracked.locked before holding
  · intro place other present
    obtain ⟨rfl, rfl⟩ | ⟨different, before⟩ := getElem?_set_cases present
    · exact (knows_next tracked found accesses).reframe _ _ _ _ _
    · exact (knows_other tracked found granted accesses different before).reframe _ _ _ _ _

end

theorem tracked_start {run} (tracked : Tracked run) {task used} (kept : run.used ⊆ used) (idle : task.holds = false)
    (knows : Knows run task)
    (reserved : ∀ {name}, reserves task = some name → name ∈ used ∧ (name ∉ run.used ∨ name ∈ run.known)) :
    Tracked ({ run with used := used }.start task) := by
  refine ⟨tracked.registered.reframe _ _ _ _ _, { tracked.channels with }, fun name known => kept (tracked.known name known),
    ?_, ?_, ?_, ?_, ?_⟩
  · intro index other name found same
    obtain ⟨_, rfl⟩ | before := getElem?_concat_cases found
    · exact (reserved same).1
    · exact kept (tracked.reserved before same)
  · intro first second left right name present also same shared
    obtain ⟨rfl, rfl⟩ | before := getElem?_concat_cases present <;>
      obtain ⟨rfl, rfl⟩ | later := getElem?_concat_cases also
    · exact .inl rfl
    · exact .inr ((reserved same).2.resolve_left fun fresh => fresh (tracked.reserved later shared))
    · exact .inr ((reserved shared).2.resolve_left fun fresh => fresh (tracked.reserved before same))
    · exact tracked.distinct before later same shared
  · intro index other found holds
    obtain ⟨_, rfl⟩ | before := getElem?_concat_cases found
    · rw [idle] at holds
      cases holds
    · exact tracked.locked before holds
  · intro index other found
    obtain ⟨_, rfl⟩ | before := getElem?_concat_cases found
    · exact knows.reframe _ _ _ _ _
    · exact (tracked.knows before).reframe _ _ _ _ _
  · intro name known mapped
    obtain indexed | ⟨index, holder, found, detached⟩ := tracked.orphans name known mapped
    · exact .inl indexed
    · have inside := (List.getElem?_eq_some_iff.mp found).1
      exact .inr ⟨index, holder, (getElem?_append_left inside).trans found, detached⟩

theorem tracked_register {run} (tracked : Tracked run) (topic : String) (created : Except CoreError Nat) :
    Tracked { run with router := (run.router.register topic created).2 } := by
  obtain ⟨topics, frame⟩ := register_frame run.router topic created
  have lists := listed_register run.router topic created
  rw [frame] at lists ⊢
  refine ⟨⟨tracked.registered.indexed, ?_, tracked.registered.doomed, tracked.registered.deleted, ?_⟩,
    { tracked.channels with }, tracked.known, tracked.reserved, tracked.distinct, tracked.locked, ?_, tracked.orphans⟩
  · intro other name listed
    rw [lists] at listed
    exact tracked.registered.listed other name listed
  · intro name other made kept
    have served := tracked.registered.served name other made kept
    exact { served with listed := by rw [lists]; exact served.listed }
  · intro index task found
    have knows := tracked.knows found
    cases task with
    | publishing => exact fun made => ⟨(knows made).1, by rw [lists]; exact (knows made).2⟩
    | announcing => exact fun made => { knows made with listed := by rw [lists]; exact (knows made).listed }
    | evicting => exact ⟨by rw [lists]; exact knows.1, knows.2⟩
    | evictingInbox => exact ⟨knows.1, by rw [lists]; exact knows.2.1, knows.2.2⟩
    | indexing caller => cases caller <;> exact knows
    | _ => exact knows

theorem tracked_init : Tracked {} where
  registered := ⟨nofun, fun _ _ member => by simp [ConsumerRouter.listed] at member, nofun, nofun, nofun⟩
  channels := ⟨nofun, nofun, nofun⟩
  known := nofun
  reserved := nofun
  distinct := nofun
  locked := nofun
  knows := nofun
  orphans := nofun

def begins : RouterTask → Bool
  | .reading _ | .indexing .outside _ _ | .removing _ | .clearing _ => true
  | _ => false

def dispatches : RouterEvent → Bool
  | .load _ | .readNames _ | .readInboxes _ | .act .. => true
  | _ => false

inductive RunMoves (run : RouterRun) : RouterEvent → RouterRun → Prop
  | register (topic : String) (created : Except CoreError Nat) :
      RunMoves run (.register topic created) { run with router := (run.router.register topic created).2 }
  | start (event : RouterEvent) (task : RouterTask) (used : List String) (first : begins task = true)
      (kept : run.used ⊆ used) (fresh : ∀ worker, task = .reading worker → worker.name ∉ run.used)
      (reserved : ∀ {name}, reserves task = some name → name ∈ used ∧ (name ∉ run.used ∨ name ∈ run.known)) :
      RunMoves run event ({ run with used := used }.start task)
  | access (index : Nat) (task next : RouterTask) (change : RouterUpdate) (found : run.tasks[index]? = some task)
      (granted : task.acquires = true → run.writer = none) (accessing : task.next run.router = some (next, change)) :
      RunMoves run (.advance index) (accessed run index task next change)
  | dispatch (event : RouterEvent) (loops : Nat → DispatchLoop) (offers : List Offer) (loop : dispatches event = true) :
      RunMoves run event { run with loops := loops, offers := offers }

section
variable {node : Option String} {run after : RouterRun} {event : RouterEvent}

theorem advance_access {index task} (stepped : run.advance index task = some after) :
    ∃ next change, (task.acquires = true → run.writer = none) ∧ task.next run.router = some (next, change) ∧
      after = accessed run index task next change := by
  unfold RouterRun.advance at stepped
  split at stepped
  · cases stepped
  · next free =>
    obtain ⟨⟨next, change⟩, accessing, shape⟩ := Option.map_eq_some_iff.mp stepped
    refine ⟨next, change, fun acquires => ?_, accessing, shape.symm⟩
    simpa [acquires] using free

theorem step_moves (stepped : run.step node event = some after) : RunMoves run event after := by
  revert stepped
  fun_cases RouterRun.step node run event
  all_goals intro stepped
  all_goals try cases stepped
  · next topic created => exact .register topic created
  · next worker unused =>
    refine .start _ (.reading worker) _ rfl (subset_cons_self _ _) ?_ ?_
    · rintro _ ⟨⟩
      exact unused
    · rintro name ⟨⟩
      exact ⟨mem_cons_self, .inl unused⟩
  · next topic worker free =>
    refine .start _ (.indexing .outside topic worker) _ rfl (subset_cons_self _ _) nofun ?_
    rintro name ⟨⟩
    exact ⟨mem_cons_self, by tauto⟩
  · next name => exact .start _ (.removing name) run.used rfl (Subset.refl _) nofun nofun
  · next topic => exact .start _ (.clearing topic) run.used rfl (Subset.refl _) nofun nofun
  · next index task found =>
    obtain ⟨next, change, granted, accessing, rfl⟩ := advance_access stepped
    exact .access index task next change found granted accessing
  · exact .dispatch _ _ run.offers rfl
  · exact .dispatch _ _ run.offers rfl
  · exact .dispatch _ _ run.offers rfl
  · exact .dispatch _ _ run.offers rfl
  · unfold RouterRun.act
    simp only
    split
    · exact .dispatch _ _ _ rfl
    · exact .dispatch _ _ run.offers rfl

theorem tracked_move (tracked : Tracked run) (moves : RunMoves run event after) : Tracked after := by
  cases moves with
  | register topic created => exact tracked_register tracked topic created
  | start _ task used first kept fresh reserved =>
    refine tracked_start tracked kept ?_ ?_ reserved
    · cases task <;> first | rfl | cases first
    · cases task with
      | reading worker => exact fun known => fresh worker rfl (tracked.known worker.name known)
      | indexing caller topic worker =>
        cases caller with
        | createWorker => cases first
        | outside => trivial
      | removing | clearing => trivial
      | _ => cases first
  | access index task next change found granted accessing =>
    exact tracked_access tracked found granted (accesses_of_next accessing)
  | dispatch _ loops offers _ => exact tracked.reframe loops offers

end

end EventBase.Proofs.RouterTasks
