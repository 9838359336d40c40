import EventBase.WorkerTasks
import EventBase.Proofs.RouterTasks

/-! What a `create_worker` that returns an error leaves in the router. The topic is checked
at its beginning and again by `register_worker`; a `del_workers` in between makes the second
check fail when the worker is already in the index, with its inbox and its task. -/

namespace EventBase.Proofs.FailedCreation

open EventBase Foundations RouterMaps RouterTasks List Option AList WorkerTasks

/-- The maps know nothing of the worker, no task runs it, and the topic is not enabled without being registered. -/
structure NothingLeft (state : WorkerTasks) (worker : Worker) : Prop where
  unindexed : worker.name ∉ state.run.router.workerIndex
  unmapped : worker.name ∉ state.run.router.localInboxes
  unpublished : ∀ topic, worker.name ∉ state.run.router.published topic
  stopped : worker.name ∉ state.running
  enabled : state.run.router.isEnabled worker.topic = true → worker.topic ∈ state.run.router.localTopics

structure Fails (node : Option String) (state : WorkerTasks) (index : Nat) (worker : Worker) (after : WorkerTasks) : Prop where
  stepped : state.step node (.advance index) = some after
  creating : ∃ task, state.run.tasks[index]? = some task ∧ task.creates = some worker
  refused : ∃ error, after.run.tasks[index]? = some (.finished (some error))

def awaits : RouterTask → Option String
  | .attaching worker _ | .enabling worker _ | .spawning worker _ => some worker.topic
  | .indexing .createWorker topic _ | .listing .createWorker topic _ => some topic
  | _ => none

def removes : RouterTask → Option String
  | .dropping topic _ => some topic
  | _ => none

/-- No topic is removed while a `create_worker` call on it is between its two checks. -/
def Spared (state : WorkerTasks) : RouterEvent → Prop
  | .advance index =>
    ∀ task ∈ state.run.tasks[index]?, ∀ topic ∈ removes task, ∀ other ∈ state.run.tasks, awaits other ≠ some topic
  | _ => True

instance Spared.decidable (state : WorkerTasks) : ∀ event, Decidable (Spared state event)
  | .advance index =>
    inferInstanceAs (Decidable (∀ task ∈ state.run.tasks[index]?, ∀ topic ∈ removes task, ∀ other ∈ state.run.tasks,
      awaits other ≠ some topic))
  | .register .. | .createWorker .. | .registerWorker .. | .delWorker .. | .delWorkers .. | .load .. | .readNames ..
  | .readInboxes .. | .act .. => .isTrue trivial

def disables : RouterTask → Option String
  | .withdrawing topic _ | .disabling topic _ => some topic
  | _ => none

/-- The worker of a `create_worker` call that has made its inbox and has not put it into the index. -/
def equips : RouterTask → Option String
  | .enabling worker _ | .spawning worker _ | .indexing .createWorker _ worker => some worker.name
  | _ => none

section
variable {run : RouterRun} {index : Nat} {task next : RouterTask} {change : RouterUpdate} {topic name : String}

theorem awaits_next (accessing : task.next run.router = some (next, change)) (awaited : awaits next = some topic) :
    removes task = none ∧ (awaits task = some topic ∨ topic ∈ run.router.localTopics) := by
  cases accesses_of_next accessing with
  | readEntry =>
    simp only [RouterTask.next] at accessing
    split at accessing
    · next found =>
      cases awaited
      exact ⟨rfl, .inr (lookup_isSome.mp (found ▸ rfl))⟩
    · cases accessing
  | attach | enabled | enable | spawn => exact ⟨rfl, .inl awaited⟩
  | @index caller =>
    cases caller with
    | createWorker => exact ⟨rfl, .inl awaited⟩
    | outside => cases awaited
  | _ => cases awaited

theorem removes_of_removeTopic (accessing : task.next run.router = some (next, .removeTopic topic)) :
    removes task = some topic ∧ disables next = some topic := by
  cases accesses_of_next accessing
  exact ⟨rfl, rfl⟩

theorem awaits_of_enable (accessing : task.next run.router = some (next, .enable topic)) : awaits task = some topic := by
  cases accesses_of_next accessing
  rfl

theorem disables_next (accessing : task.next run.router = some (next, change)) (disabling : disables task = some topic) :
    disables next = some topic ∨ change = .disable topic := by
  cases accesses_of_next accessing with
  | withdraw => exact .inl disabling
  | disable =>
    cases disabling
    exact .inr rfl
  | _ => cases disabling

theorem mem_topics_update (registered : topic ∈ run.router.localTopics) (kept : change ≠ .removeTopic topic) :
    topic ∈ (run.update change).router.localTopics := by
  cases change with
  | list named entry name => exact (mem_insert _).mpr (.inr registered)
  | unlist name =>
    apply lookup_isSome.mp
    rw [RouterRun.update, ConsumerRouter.unlistWorker, lookup_mapValues, isSome_map]
    exact lookup_isSome.mpr registered
  | removeTopic named =>
    apply mem_erase.mpr
    exact ⟨fun same => kept (same ▸ rfl), registered⟩
  | _ => exact registered

theorem isEnabled_update (enabled : (run.update change).router.isEnabled topic = true) :
    change = .enable topic ∨ (run.router.isEnabled topic = true ∧ change ≠ .disable topic) := by
  cases change with
  | enable named =>
    rw [RouterRun.update, isEnabled_enable, Bool.or_eq_true, decide_eq_true_eq] at enabled
    obtain rfl | before := enabled
    · exact .inl rfl
    · exact .inr ⟨before, nofun⟩
  | disable named =>
    rw [RouterRun.update, isEnabled_disable, Bool.and_eq_true, decide_eq_true_eq] at enabled
    exact .inr ⟨enabled.2, fun disabled => enabled.1 (RouterUpdate.disable.inj disabled).symm⟩
  | _ => exact .inr ⟨enabled, nofun⟩

theorem published_update (published : name ∈ (run.update change).router.published topic) :
    name ∈ run.router.published topic ∨ change = .publish topic name := by
  cases change with
  | publish named worker =>
    obtain before | ⟨rfl, rfl⟩ := (mem_published_publishWorker _ _ _ _ _).mp published
    · exact .inl before
    · exact .inr rfl
  | unpublish worker => exact .inl ((mem_published_unpublishWorker _ _ _ _).mp published).1
  | unpublishTopic named => exact .inl ((mem_published_unpublishTopic _ _ _ _).mp published).1
  | _ => exact .inl published

end

/-- A topic that a call relies on is registered, and only registered topics are enabled, up to the last accesses of
`del_workers`. -/
structure TopicsKept (run : RouterRun) : Prop where
  awaited : ∀ {index : Nat} {task topic}, run.tasks[index]? = some task → awaits task = some topic →
    topic ∈ run.router.localTopics
  enabled : ∀ {topic}, run.router.isEnabled topic = true → topic ∈ run.router.localTopics ∨
    ∃ (index : Nat) (task : _), run.tasks[index]? = some task ∧ disables task = some topic

theorem TopicsKept.access {run} (kept : TopicsKept run) {index task next change}
    (found : run.tasks[index]? = some task) (accessing : task.next run.router = some (next, change))
    (spared : ∀ topic ∈ removes task, ∀ other ∈ run.tasks, awaits other ≠ some topic) :
    TopicsKept (accessed run index task next change) := by
  have inside := (List.getElem?_eq_some_iff.mp found).1
  constructor
  · intro place other topic present awaited
    obtain ⟨rfl, rfl⟩ | ⟨_, before⟩ := getElem?_set_cases present
    · obtain ⟨idle, known⟩ := awaits_next accessing awaited
      have registered : topic ∈ run.router.localTopics := known.elim (kept.awaited found) id
      apply mem_topics_update registered
      rintro rfl
      cases idle.symm.trans (removes_of_removeTopic accessing).1
    · apply mem_topics_update (kept.awaited before awaited)
      rintro rfl
      exact spared topic (removes_of_removeTopic accessing).1 other (mem_of_getElem? before) awaited
  · intro topic enabled
    obtain rfl | ⟨already, going⟩ := isEnabled_update enabled
    · exact .inl (mem_topics_update (kept.awaited found (awaits_of_enable accessing)) nofun)
    · obtain registered | ⟨place, other, present, disabling⟩ := kept.enabled already
      · by_cases removed : change = .removeTopic topic
        · subst removed
          exact .inr ⟨index, next, getElem?_set_self inside, (removes_of_removeTopic accessing).2⟩
        · exact .inl (mem_topics_update registered removed)
      · by_cases same : place = index
        · subst same
          cases found.symm.trans present
          have still := (disables_next accessing disabling).resolve_right going
          exact .inr ⟨place, next, getElem?_set_self inside, still⟩
        · exact .inr ⟨place, other, (getElem?_set_ne (Ne.symm same)).trans present, disabling⟩

theorem mem_topics_register (router : ConsumerRouter) (named : String) (created : Except CoreError Nat) {topic}
    (registered : topic ∈ router.localTopics) : topic ∈ (router.register named created).2.localTopics := by
  unfold ConsumerRouter.register
  split
  · exact registered
  · split
    · exact registered
    · exact (mem_insert _).mpr (.inr registered)

theorem TopicsKept.move {run after event} (kept : TopicsKept run) (moves : RunMoves run event after)
    (spared : ∀ index, event = .advance index → ∀ task ∈ run.tasks[index]?, ∀ topic ∈ removes task,
      ∀ other ∈ run.tasks, awaits other ≠ some topic) : TopicsKept after := by
  cases moves with
  | register named created =>
    obtain ⟨topics, frame⟩ := register_frame run.router named created
    have grown : ∀ topic ∈ run.router.localTopics, topic ∈ (run.router.register named created).2.localTopics :=
      fun topic registered => mem_topics_register run.router named created registered
    rw [frame] at grown ⊢
    constructor
    · intro index task topic found awaited
      exact grown topic (kept.awaited found awaited)
    · intro topic enabled
      exact (kept.enabled enabled).imp_left (grown topic)
  | start _ task used first _ _ _ =>
    constructor
    · intro index other topic found awaited
      obtain ⟨_, rfl⟩ | before := getElem?_concat_cases found
      · cases other with
        | indexing caller => cases caller with
          | createWorker => cases first
          | outside => cases awaited
        | reading | removing | clearing => cases awaited
        | _ => cases first
      · exact kept.awaited before awaited
    · intro topic enabled
      obtain registered | ⟨index, other, found, disabling⟩ := kept.enabled enabled
      · exact .inl registered
      · exact .inr ⟨index, other, getElem?_append_kept found _, disabling⟩
  | access index task next change found _ accessing => exact kept.access found accessing (spared index rfl task found)
  | dispatch _ loops offers _ => exact { kept with }

/-- The name was in the index, or its `create_worker` call is on the way there. -/
def Seen (run : RouterRun) (name : String) : Prop :=
  name ∈ run.known ∨ ∃ (index : Nat) (task : _), run.tasks[index]? = some task ∧ equips task = some name

/-- The maps a worker is not deleted by have no names from elsewhere. -/
structure NamesKept (run : RouterRun) : Prop where
  mapped : ∀ name ∈ run.router.localInboxes, Seen run name
  published : ∀ topic, ∀ name ∈ run.router.published topic, name ∈ run.known
  publishing : ∀ {index : Nat} {caller topic worker}, run.tasks[index]? = some (.publishing caller topic worker) →
    worker.name ∈ run.known

section
variable {run : RouterRun} {index : Nat} {task next : RouterTask} {change : RouterUpdate} {name : String}

theorem equips_next (accessing : task.next run.router = some (next, change)) (equipped : equips task = some name) :
    equips next = some name ∨ name ∈ (run.update change).known := by
  cases accesses_of_next accessing with
  | enabled | enable | spawn => exact .inl equipped
  | @index caller =>
    cases caller with
    | createWorker =>
      cases equipped
      exact .inr mem_cons_self
    | outside => cases equipped
  | _ => cases equipped

theorem Seen.access (seen : Seen run name) (found : run.tasks[index]? = some task)
    (accessing : task.next run.router = some (next, change)) :
    Seen (accessed run index task next change) name := by
  obtain known | ⟨place, other, present, equipped⟩ := seen
  · exact .inl (known_update known)
  · by_cases same : place = index
    · subst same
      cases found.symm.trans present
      have inside := (List.getElem?_eq_some_iff.mp found).1
      obtain still | known := equips_next accessing equipped
      · exact .inr ⟨place, next, getElem?_set_self inside, still⟩
      · exact .inl known
    · exact .inr ⟨place, other, (getElem?_set_ne (Ne.symm same)).trans present, equipped⟩

theorem Seen.equipped (found : run.tasks[index]? = some task) (equipped : equips next = some name) :
    Seen (accessed run index task next change) name :=
  .inr ⟨index, next, List.getElem?_set_self (List.getElem?_eq_some_iff.mp found).1, equipped⟩

theorem NamesKept.access (names : NamesKept run) (tracked : Tracked run) (found : run.tasks[index]? = some task)
    (accessing : task.next run.router = some (next, change)) :
    NamesKept (accessed run index task next change) := by
  refine ⟨?_, ?_, ?_⟩
  · intro name mapped
    by_cases new : change = .attach name
    · subst new
      cases accesses_of_next accessing
      exact .equipped found rfl
    · exact (names.mapped name (mem_inboxes_of_update mapped new).1).access found accessing
  · intro topic name published
    obtain before | rfl := published_update published
    · exact known_update (names.published topic name before)
    · cases accesses_of_next accessing
      exact known_update (names.publishing found)
  · intro place caller topic worker present
    obtain ⟨rfl, rfl⟩ | ⟨_, before⟩ := getElem?_set_cases present
    · cases accesses_of_next accessing
      exact known_update (tracked.knows found).1
    · exact known_update (names.publishing before)

end

theorem Seen.start {run name} (seen : Seen run name) (task : RouterTask) (used : List String) :
    Seen ({ run with used := used }.start task) name := by
  obtain known | ⟨place, other, present, equipped⟩ := seen
  · exact .inl known
  · exact .inr ⟨place, other, getElem?_append_kept present _, equipped⟩

theorem NamesKept.move {run after event} (names : NamesKept run) (tracked : Tracked run)
    (moves : RunMoves run event after) : NamesKept after := by
  cases moves with
  | register named created =>
    obtain ⟨topics, frame⟩ := register_frame run.router named created
    rw [frame]
    exact ⟨names.mapped, names.published, names.publishing⟩
  | start _ task used first _ _ _ =>
    refine ⟨fun name mapped => (names.mapped name mapped).start task used, names.published, ?_⟩
    intro place caller topic worker present
    obtain ⟨_, rfl⟩ | before := getElem?_concat_cases present
    · cases first
    · exact names.publishing before
  | access index task next change found _ accessing => exact names.access tracked found accessing
  | dispatch _ loops offers _ => exact ⟨names.mapped, names.published, names.publishing⟩

theorem Seen.move {run after event name} (seen : Seen run name) (moves : RunMoves run event after) :
    Seen after name := by
  cases moves with
  | register named created => exact seen
  | start _ task used _ _ _ _ => exact seen.start task used
  | access index task next change found _ accessing => exact seen.access found accessing
  | dispatch _ loops offers _ => exact seen

section
variable {node : Option String} {state after : WorkerTasks} {event : RouterEvent}

theorem running_abort {name other} (running : name ∈ (state.abort other).running) : name ∈ state.running := by
  unfold abort at running
  simp only at running
  split at running
  · exact (mem_filter.mp running).1
  · exact running

theorem running_follow {task next name} (running : name ∈ (state.follow task next).running) :
    name ∈ state.running ∨ equips task = some name := by
  unfold follow at running
  split at running
  · exact (mem_cons.mp running).symm.imp_right fun same => congrArg some same.symm
  · exact (mem_cons.mp running).symm.imp_right fun same => congrArg some same.symm
  · exact .inl running
  · exact .inl (running_abort running)
  · exact .inl (running_abort running)
  · exact .inl running

theorem track_run (state : WorkerTasks) (event : RouterEvent) (run : RouterRun) : (state.track event run).run = run := by
  unfold track
  split
  · split <;> rfl
  · rfl

theorem running_track {run name} (running : name ∈ (state.track event run).running) :
    name ∈ state.running ∨ ∃ (index : Nat) (task : _), state.run.tasks[index]? = some task ∧ equips task = some name := by
  unfold track at running
  split at running
  · next index =>
    split at running
    · next task next found _ => exact (running_follow running).imp_right fun equipped => ⟨index, task, found, equipped⟩
    · exact .inl running
  · exact .inl running

theorem step_run (stepped : state.step node event = some after) :
    state.run.awaitsTopics event = false ∧ state.run.step node event = some after.run ∧
      after = state.track event after.run := by
  unfold step at stepped
  split at stepped
  · cases stepped
  · next free =>
    obtain ⟨run, moved, rfl⟩ := map_eq_some_iff.mp stepped
    rw [track_run]
    exact ⟨Bool.eq_false_iff.mpr free, moved, rfl⟩

/-- The names in the maps and of the running tasks, in every state reached. -/
structure Creations (state : WorkerTasks) : Prop where
  tracked : Tracked state.run
  names : NamesKept state.run
  running : ∀ name ∈ state.running, Seen state.run name

theorem Creations.step (creations : Creations state) (stepped : state.step node event = some after) : Creations after := by
  obtain ⟨_, moved, tracked⟩ := step_run stepped
  have moves := step_moves moved
  refine ⟨tracked_move creations.tracked moves, creations.names.move creations.tracked moves, ?_⟩
  intro name running
  rw [tracked] at running
  have seen : Seen state.run name := (running_track running).elim (creations.running name) .inr
  exact seen.move moves

theorem creations_init : Creations {} where
  tracked := tracked_init
  names := ⟨nofun, fun _ _ member => by simp [ConsumerRouter.published] at member, nofun⟩
  running := nofun

theorem topicsKept_init : TopicsKept {} where
  awaited := nofun
  enabled := by
    intro topic enabled
    simp [ConsumerRouter.isEnabled] at enabled

theorem Creations.unseen (creations : Creations state) {index : Nat} {worker}
    (found : state.run.tasks[index]? = some (.reading worker)) : ¬ Seen state.run worker.name := by
  have fresh : worker.name ∉ state.run.known := creations.tracked.knows found
  rintro (known | ⟨place, other, present, equipped⟩)
  · exact fresh known
  · have reserved : reserves other = some worker.name := by
      cases other with
      | enabling | spawning => exact equipped
      | indexing caller topic worker =>
        cases caller with
        | createWorker => exact equipped
        | outside => cases equipped
      | _ => cases equipped
    obtain rfl | known := creations.tracked.distinct found present rfl reserved
    · cases found.symm.trans present
      cases equipped
    · exact fresh known

theorem refusal_checks {router : ConsumerRouter} {task : RouterTask} {change error} {worker : Worker}
    (accessing : task.next router = some (.finished (some error), change)) (creating : task.creates = some worker) :
    change = .skip ∧ (task = .reading worker ∧ worker.topic ∉ router.localTopics ∨
      ∃ topic, task = .listing .createWorker topic worker ∧ topic ∉ router.localTopics) := by
  cases accesses_of_next accessing with
  | noEntry =>
    cases creating
    simp only [RouterTask.next] at accessing
    split at accessing
    · cases accessing
    · next absent => exact ⟨rfl, .inl ⟨rfl, lookup_eq_none.mp absent⟩⟩
  | @unlisted caller =>
    cases caller with
    | outside => cases creating
    | createWorker =>
      cases creating
      simp only [RouterTask.next] at accessing
      split at accessing
      · cases accessing
      · next absent => exact ⟨rfl, .inr ⟨_, rfl, lookup_eq_none.mp absent⟩⟩
  | unknown => cases creating

theorem Fails.checks {index : Nat} {worker : Worker} (fails : Fails node state index worker after) :
    after.run.router = state.run.router ∧ after.running = state.running ∧
      ((state.run.tasks[index]? = some (.reading worker) ∧ worker.topic ∉ state.run.router.localTopics ∧
          state.run.tasks.any RouterTask.keepsTopics = false) ∨
        ∃ topic, state.run.tasks[index]? = some (.listing .createWorker topic worker) ∧
          topic ∉ state.run.router.localTopics) := by
  obtain ⟨stepped, ⟨task, found, creating⟩, error, refused⟩ := fails
  obtain ⟨free, moved, tracked⟩ := step_run stepped
  simp only [RouterRun.step, found] at moved
  obtain ⟨next, change, _, accessing, shape⟩ := advance_access moved
  have inside := (List.getElem?_eq_some_iff.mp found).1
  have after_next : after.run.tasks[index]? = some next := by
    rw [shape]
    exact getElem?_set_self inside
  cases after_next.symm.trans refused
  obtain ⟨rfl, checks⟩ := refusal_checks accessing creating
  have running : after.running = state.running := by
    rw [tracked]
    simp only [track, found, refused]
    obtain ⟨rfl, _⟩ | ⟨topic, rfl, _⟩ := checks <;> rfl
  refine ⟨by rw [shape]; rfl, running, ?_⟩
  obtain ⟨rfl, absent⟩ | ⟨topic, rfl, absent⟩ := checks
  · refine .inl ⟨found, absent, ?_⟩
    simpa only [RouterRun.awaitsTopics, found, any_some, RouterTask.asksTopics, Bool.true_and] using free
  · exact .inr ⟨topic, found, absent⟩

theorem nothingLeft_iff (creations : Creations state) {index : Nat} {worker}
    (fails : Fails node state index worker after) :
    NothingLeft after worker ↔
      state.run.tasks[index]? = some (.reading worker) ∧ state.run.router.isEnabled worker.topic = false := by
  obtain ⟨router, running, checks⟩ := fails.checks
  constructor
  · intro left
    obtain ⟨found, absent, _⟩ | ⟨topic, found, _⟩ := checks
    · refine ⟨found, Bool.eq_false_iff.mpr fun enabled => absent ?_⟩
      have registered := left.enabled
      rw [router] at registered
      exact registered enabled
    · have indexed := ((creations.tracked.knows found).2 rfl).1
      rw [← router] at indexed
      exact absurd indexed left.unindexed
  · rintro ⟨found, disabled⟩
    have unseen := creations.unseen found
    refine ⟨?_, ?_, ?_, ?_, ?_⟩
    · rw [router]
      exact fun indexed => unseen (.inl (creations.tracked.registered.indexed _ indexed))
    · rw [router]
      exact fun mapped => unseen (creations.names.mapped _ mapped)
    · rw [router]
      exact fun topic published => unseen (.inl (creations.names.published topic _ published))
    · rw [running]
      exact fun runs => unseen (creations.running _ runs)
    · rw [router, disabled]
      exact nofun

end

/-- Where no topic is removed under a `create_worker` call on it, one that fails leaves nothing. -/
theorem failed_creation_leaves_nothing {node : Option String} {events : List RouterEvent} {state after : WorkerTasks}
    {index : Nat} {worker : Worker} (ran : run (WorkerTasks.step node) {} events = some state)
    (spared : Along (WorkerTasks.step node) Spared {} events) (fails : Fails node state index worker after) :
    NothingLeft after worker := by
  have creations : Creations state := run_preserves Creations (fun kept stepped => kept.step stepped) creations_init ran
  have kept : TopicsKept state.run := by
    refine run_invariant (fun state => TopicsKept state.run) ?_ spared topicsKept_init ran
    intro before event next allowed kept stepped
    refine kept.move (step_moves (step_run stepped).2.1) ?_
    rintro index rfl
    exact allowed
  apply (nothingLeft_iff creations fails).mpr
  obtain ⟨_, _, ⟨found, absent, free⟩ | ⟨topic, found, absent⟩⟩ := fails.checks
  · refine ⟨found, Bool.eq_false_iff.mpr fun enabled => ?_⟩
    obtain registered | ⟨place, other, present, disabling⟩ := kept.enabled enabled
    · exact absent registered
    · have keeps : other.keepsTopics = true := by
        cases other with
        | withdrawing | disabling => rfl
        | _ => cases disabling
      have held := any_eq_true.mpr ⟨other, mem_of_getElem? present, keeps⟩
      cases free.symm.trans held
  · exact absurd (kept.awaited found rfl) absent

private def first : Worker := { topic := "orders", name := "first" }

private def second : Worker := { topic := "orders", name := "second" }

/-- A worker is made and deleted with its topic before the next one is asked for. -/
private def outlived : List RouterEvent :=
  [.register "orders" (.ok 0), .createWorker first, .advance 0, .advance 0, .advance 0, .advance 0, .advance 0, .advance 0,
    .advance 0, .advance 0, .delWorkers "orders", .advance 1, .advance 1, .advance 1, .advance 1, .advance 1, .advance 1,
    .advance 1, .advance 1, .createWorker second]

theorem outlived_topic_leaves_nothing : ∃ state after, run (WorkerTasks.step none) {} outlived = some state ∧
    Fails none state 2 second after ∧ NothingLeft after second := by
  have reached : ∃ state after, run (step none) {} outlived = some state ∧ Fails none state 2 second after :=
    ⟨_, _, rfl, ⟨rfl, ⟨_, rfl, rfl⟩, _, rfl⟩⟩
  obtain ⟨state, after, ran, fails⟩ := reached
  exact ⟨state, after, ran, fails, failed_creation_leaves_nothing ran (by decide +kernel) fails⟩

/-- The topic is removed between the checks: everything but the published name stays. -/
private def overtakenCreation : List RouterEvent :=
  [.register "orders" (.ok 0), .createWorker first, .advance 0, .delWorkers "orders", .advance 1, .advance 1, .advance 1,
    .advance 1, .advance 1, .advance 1, .advance 0, .advance 0, .advance 0, .advance 0]

theorem overtaken_creation_leaves_worker : ∃ state after,
    run (WorkerTasks.step none) {} overtakenCreation = some state ∧ Fails none state 0 first after ∧
      ¬ NothingLeft after first ∧ first.name ∈ after.run.router.workerIndex ∧
      first.name ∈ after.run.router.localInboxes ∧ first.name ∈ after.running ∧
      after.run.router.isEnabled "orders" = true ∧ "orders" ∉ after.run.router.localTopics := by
  refine ⟨_, _, rfl, ⟨rfl, ⟨_, rfl, rfl⟩, _, rfl⟩, fun left => left.unindexed ?_, ?_⟩
  · decide
  · decide

end EventBase.Proofs.FailedCreation
