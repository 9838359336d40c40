import EventBase.Proofs.RouterMaps
import EventBase.RouterLocks

/-! Which calls on one `ConsumerRouter` can wait for each other. `del_worker` takes
`worker_index` before `local_topics`; whoever takes both otherwise takes them the
other way round. -/

namespace EventBase.Proofs.RouterDeadlock
open Foundations NestedLocks RouterMethod RouterMaps List Option AList ConsumerRouter RouterSystem
open FairLock (Mode Lock)

/-- Takes `worker_index` while it holds `local_topics`. -/
def topicsFirst : RouterMethod → Bool
  | .registerWorker .. | .createWorker _ | .getWorkers _ | .delWorkers _ => true
  | _ => false

/-- Takes `local_topics` while it holds `worker_index`. -/
def indexFirst : RouterMethod → Bool
  | .delWorker _ => true
  | _ => false

def Clash (methods : List RouterMethod) : Prop :=
  (∃ method ∈ methods, indexFirst method = true) ∧ ∃ method ∈ methods, topicsFirst method = true

theorem effect_evictCode (rest : RouterCode) (names : List String) (data : GuardedRouter) :
    (evictCode rest names data.router).effect data = rest.effect { data with router := names.foldl evict data.router } := by
  induction names generalizing data with
  | nil => rfl
  | cons name names ih =>
    simp only [evictCode, foldl_cons]
    split
    · exact ih (data.change fun router => router.evict name)
    · next absent =>
      rw [ih data, evict, if_neg absent]

theorem effect_registerWorkerCode (topic : String) (worker : Worker) (data : GuardedRouter) :
    (registerWorkerCode topic worker).effect data = data.change fun router => (router.registerWorker topic worker).2 := by
  simp only [registerWorkerCode, Code.effect, id, GuardedRouter.change, ConsumerRouter.registerWorker, addWorker,
    ConsumerRouter.indexWorker]
  cases data.router.localTopics.lookup topic <;> rfl

theorem effect_code (method : RouterMethod) (data : GuardedRouter) : method.code.effect data = method.alone data := by
  cases method with
  | registerWorker topic worker => exact effect_registerWorkerCode topic worker data
  | createWorker worker =>
    simp only [code, createWorkerCode, Code.guard, Code.effect, id, alone, GuardedRouter.change,
      ConsumerRouter.createWorker]
    cases data.router.localTopics.lookup worker.topic with
    | none => rfl
    | some entry => exact effect_registerWorkerCode worker.topic worker _
  | delWorker name =>
    simp only [code, delWorkerCode, Code.effect, alone, GuardedRouter.change, ConsumerRouter.delWorker]
    split
    · rfl
    · next absent =>
      have same : data.router.workerIndex.erase name = data.router.workerIndex :=
        AList.ext (kerase_of_notMem_keys absent)
      rw [Code.effect, Code.effect, ConsumerRouter.unindexWorker, same]
  | delWorkers topic =>
    simp only [code, delWorkersCode, Code.effect, id]
    rw [effect_evictCode]
    rfl
  | selectLocalIdleWorker topic =>
    simp only [code, selectLocalIdleWorkerCode, Code.effect]
    cases data.idle topic <;> rfl
  | register | setPipeline | getWorkers | getWorker | getAllWorkers | setIdle | setWorking => rfl

def topicsRank : RouterLock → Nat
  | .localTopics | .idleWorkers => 0
  | .workerIndex => 1
  | .localInboxes | .dispatchWorkers | .dispatchEnabled => 2

def indexRank : RouterLock → Nat
  | .idleWorkers => 0
  | .workerIndex => 1
  | .localInboxes | .localTopics => 2
  | .dispatchWorkers | .dispatchEnabled => 3

theorem ascends_evictCode {rest held} (below : ∀ lock ∈ held, topicsRank lock < 2)
    (ascends : rest.Ascends topicsRank held) (names : List String) (router : ConsumerRouter) :
    (evictCode rest names router).Ascends topicsRank held := by
  induction names generalizing router with
  | nil => exact ascends
  | cons name names ih =>
    simp only [evictCode]
    split
    · refine ⟨below, fun data => ?_⟩
      have kept : (RouterLock.localInboxes :: held).filter (fun other => other ≠ .localInboxes) = held := by
        rw [filter_cons_of_neg (by decide), filter_eq_self]
        intro lock member
        have low := below lock member
        exact decide_eq_true (by rintro rfl; exact absurd low (by decide))
      rw [Code.Ascends, kept]
      exact ih _
    · exact ih router

theorem ascends_registerWorkerCode (topic : String) (worker : Worker) :
    (registerWorkerCode topic worker).Ascends topicsRank [] := by
  refine ⟨by simp, fun _ => ⟨by decide, fun data => ?_⟩⟩
  simp only
  split
  · exact ⟨by decide, fun _ => trivial⟩
  · trivial

theorem ascends_selectLocalIdleWorkerCode {rank} (topic : String) (above : rank .idleWorkers < rank .workerIndex) :
    (selectLocalIdleWorkerCode topic).Ascends rank [] := by
  refine ⟨by simp, fun data => ?_⟩
  simp only
  split
  · exact ⟨by simpa using above, fun _ => trivial⟩
  · trivial

theorem ascends_topicsRank {method} (other : indexFirst method = false) :
    method.code.Ascends topicsRank [] := by
  cases method with
  | delWorker name => cases other
  | registerWorker topic worker => exact ascends_registerWorkerCode topic worker
  | createWorker worker =>
    refine ⟨by simp, fun data => ?_⟩
    simp only [Code.Ascends]
    split
    · trivial
    · exact ⟨by simp, fun _ => ⟨by simp, fun _ => ascends_registerWorkerCode worker.topic worker⟩⟩
  | delWorkers topic =>
    refine ⟨by simp, fun _ => ⟨by decide, fun data => ascends_evictCode (by decide) ?_ _ _⟩⟩
    exact ⟨by decide, fun _ => ⟨by decide, fun _ => trivial⟩⟩
  | selectLocalIdleWorker topic => exact ascends_selectLocalIdleWorkerCode topic (by decide)
  | getWorkers topic => exact ⟨by simp, fun _ => ⟨by decide, fun _ => trivial⟩⟩
  | register | setPipeline | getWorker | getAllWorkers | setIdle | setWorking => exact ⟨by simp, fun _ => trivial⟩

theorem ascends_indexRank {method} (other : topicsFirst method = false) :
    method.code.Ascends indexRank [] := by
  cases method with
  | registerWorker | createWorker | getWorkers | delWorkers => cases other
  | delWorker name =>
    refine ⟨by simp, fun data => ?_⟩
    simp only
    split
    · exact ⟨by decide, fun _ => ⟨by decide, fun _ => ⟨by decide, fun _ => trivial⟩⟩⟩
    · trivial
  | selectLocalIdleWorker topic => exact ascends_selectLocalIdleWorkerCode topic (by decide)
  | register | setPipeline | getWorker | getAllWorkers | setIdle | setWorking => exact ⟨by simp, fun _ => trivial⟩

theorem never_deadlocked {methods data turns system}
    (peace : ¬ Clash methods) (ran : run System.step (start data methods) turns = some system)
    (tasks : Finset Nat) : ¬ system.Deadlocked tasks := by
  by_cases first : ∃ method ∈ methods, indexFirst method = true
  · refine @ascending_never_deadlocked _ _ _ system indexRank data _ turns ?_ ran tasks
    intro code member
    obtain ⟨method, present, rfl⟩ := mem_map.mp member
    exact ascends_indexRank (Bool.eq_false_iff.mpr fun topics => peace ⟨first, method, present, topics⟩)
  · refine @ascending_never_deadlocked _ _ _ system topicsRank data _ turns ?_ ran tasks
    intro code member
    obtain ⟨method, present, rfl⟩ := mem_map.mp member
    exact ascends_topicsRank (Bool.eq_false_iff.mpr fun index => first ⟨method, present, index⟩)

theorem opposed {system deleter other name mode second update inside} (different : deleter ≠ other)
    (free : system.locks = fun _ => {}) (deletes : system.codes[deleter]? = some (delWorkerCode name))
    (present : name ∈ system.data.router.workerIndex)
    (opposes : system.codes[other]? = some
      (.acquire .localTopics mode id fun _ => .acquire .workerIndex second update inside)) :
    ∃ final, run System.step system [other, deleter, deleter, deleter, deleter, other] = some final ∧
      final.Deadlocked {deleter, other} := by
  have insideOther : other < system.codes.length := (List.getElem?_eq_some_iff.mp opposes).1
  obtain ⟨taken, took, takenData, takenCodes, takenLocks⟩ : ∃ next, system.step other = some next ∧
      next.data = system.data ∧ next.codes = system.codes.set other (.acquire .workerIndex second update inside) ∧
      next.locks = Function.update system.locks .localTopics { holders := [(other, mode)] } :=
    ⟨_, step_free opposes (by rw [free]), rfl, rfl, rfl⟩
  have starts : taken.codes[deleter]? = some (delWorkerCode name) := by
    rw [takenCodes, getElem?_set_ne different.symm, deletes]
  obtain ⟨found, indexed, foundCodes, foundLocks⟩ : ∃ next, taken.step deleter = some next ∧
      next.codes = taken.codes.set deleter (.guard .localInboxes .write (.change fun router => router.detachInbox name) fun _ =>
        .acquire .localTopics .write (.change fun router => router.unlistWorker name) fun _ =>
          .guard .dispatchWorkers .write (.change fun router => (router.unpublishWorker name).bumpGeneration) fun _ =>
            .release .localTopics (.release .workerIndex .done)) ∧
      next.locks = Function.update taken.locks .workerIndex { holders := [(deleter, .write)] } := by
    have stepped := step_free starts (by rw [takenLocks, free]; rfl)
    simp only [takenData, if_pos present] at stepped
    exact ⟨_, stepped, rfl, rfl⟩
  have insideFound : deleter < taken.codes.length := (List.getElem?_eq_some_iff.mp starts).1
  have detached := run_guard (foundCodes ▸ getElem?_set_self insideFound) (by rw [foundLocks, takenLocks, free]; rfl)
  obtain ⟨final, waited, deadlocked⟩ := @crossed _ _ _
    { data := found.data.change fun router => router.detachInbox name
      locks := found.locks
      codes := found.codes.set deleter
        (.acquire .localTopics .write (.change fun router => router.unlistWorker name) fun _ =>
          .guard .dispatchWorkers .write (.change fun router => (router.unpublishWorker name).bumpGeneration) fun _ =>
            .release .localTopics (.release .workerIndex .done)) }
    deleter other .localTopics .workerIndex second mode _ update _ inside different (by decide)
    (getElem?_set_self (by rw [foundCodes, length_set]; exact insideFound))
    (by rw [getElem?_set_ne different, foundCodes, getElem?_set_ne different, takenCodes,
      getElem?_set_self insideOther])
    (by rw [foundLocks, takenLocks]; rfl) (by rw [foundLocks, Function.update_self])
  have begun : run System.step system [other, deleter] = some found := by
    simp only [run, took, indexed, bind_some]
  have ended : run System.step found ([deleter, deleter] ++ [deleter, other]) = some final := by
    rw [run_append, detached]
    exact waited
  refine ⟨final, ?_, deadlocked⟩
  rw [show [other, deleter, deleter, deleter, deleter, other] = [other, deleter] ++ ([deleter, deleter] ++ [deleter, other])
    from rfl, run_append, begun]
  exact ended

theorem opposes_eventually {system other method} (topics : topicsFirst method = true)
    (free : system.locks = fun _ => {}) (found : system.codes[other]? = some method.code)
    (known : ∀ worker, method = .createWorker worker → ∃ entry, system.data.router.localTopics.lookup worker.topic = some entry) :
    ∃ turns next mode second update inside, run System.step system turns = some next ∧ next.locks = (fun _ => {}) ∧
      next.data.router.workerIndex = system.data.router.workerIndex ∧
      next.codes = system.codes.set other (.acquire .localTopics mode id fun _ => .acquire .workerIndex second update inside) := by
  have already {mode second : Mode} {update : GuardedRouter → GuardedRouter} {inside : GuardedRouter → RouterCode}
      (present : system.codes[other]? = some
        (.acquire .localTopics mode id fun _ => .acquire .workerIndex second update inside)) :
      system.codes = system.codes.set other (.acquire .localTopics mode id fun _ => .acquire .workerIndex second update inside) := by
    obtain ⟨bound, same⟩ := List.getElem?_eq_some_iff.mp present
    rw [← same, List.set_getElem_self]
  cases method with
  | registerWorker | getWorkers | delWorkers => exact ⟨[], system, _, _, _, _, rfl, free, rfl, already found⟩
  | createWorker worker =>
    obtain ⟨entry, listed⟩ := known worker rfl
    have bound : other < system.codes.length := (List.getElem?_eq_some_iff.mp found).1
    obtain ⟨looked, firstRan, firstData, firstLocks, firstCodes⟩ := pass_guard free found
    simp only [listed] at firstCodes
    have reached := firstCodes ▸ getElem?_set_self bound
    obtain ⟨attached, secondRan, secondData, secondLocks, secondCodes⟩ := pass_guard firstLocks reached
    rw [firstCodes, set_set] at secondCodes
    have enabling := secondCodes ▸ getElem?_set_self bound
    obtain ⟨enabled, thirdRan, thirdData, thirdLocks, thirdCodes⟩ := pass_guard secondLocks enabling
    rw [secondCodes, set_set] at thirdCodes
    refine ⟨[other, other] ++ ([other, other] ++ [other, other]), enabled, _, _, _, _, ?_, thirdLocks, ?_, thirdCodes⟩
    · rw [run_append, firstRan, bind_some, run_append, secondRan]
      exact thirdRan
    · rw [thirdData, secondData, firstData]
      exact workerIndex_startDispatcher _ worker.topic entry.queue
  | register | setPipeline | getWorker | getAllWorkers | delWorker | selectLocalIdleWorker | setIdle | setWorking => cases topics

theorem createWorker_known {router : ConsumerRouter} {worker : Worker} {entry}
    (found : router.localTopics.lookup worker.topic = some entry) :
    worker.name ∈ (router.createWorker worker).2.workerIndex ∧
      ∃ after, (router.createWorker worker).2.localTopics.lookup worker.topic = some after := by
  have kept : ((router.attachInbox worker.name).startDispatcher worker.topic entry.queue).localTopics.lookup worker.topic =
      some entry := by
    rw [localTopics_startDispatcher]
    exact found
  simp only [ConsumerRouter.createWorker, found, ConsumerRouter.registerWorker, ConsumerRouter.indexWorker, kept]
  exact ⟨(mem_insert _).mpr (.inl rfl), _, lookup_insert _⟩

theorem peopled (topic name : String) : ∃ history router, run ConsumerRouter.call {} history = some router ∧
    name ∈ router.workerIndex ∧ ∃ entry, router.localTopics.lookup topic = some entry := by
  refine ⟨[.register topic (.ok 0), .createWorker { topic, name }], _, rfl, ?_⟩
  exact @createWorker_known _ { topic, name } _ (lookup_insert _)

theorem clash_deadlocks {methods} (clash : Clash methods) :
    ∃ history router, run call {} history = some router ∧ ∃ turns system tasks,
      run System.step (start { router } methods) turns = some system ∧ system.Deadlocked tasks := by
  obtain ⟨⟨deletes, deleting, index⟩, opposes, opposing, topics⟩ := clash
  obtain ⟨deleter, atDeleter⟩ := getElem?_of_mem deleting
  obtain ⟨other, atOther⟩ := getElem?_of_mem opposing
  cases deletes with
  | delWorker name =>
    have different : deleter ≠ other := by
      rintro rfl
      cases atDeleter.symm.trans atOther
      cases topics
    obtain ⟨history, router, ran, present, known⟩ : ∃ history router, run call {} history = some router ∧
        name ∈ router.workerIndex ∧ ∀ worker, opposes = .createWorker worker →
          ∃ entry, router.localTopics.lookup worker.topic = some entry := by
      cases opposes with
      | createWorker worker =>
        obtain ⟨history, router, ran, present, known⟩ := peopled worker.topic name
        refine ⟨history, router, ran, present, ?_⟩
        rintro _ ⟨⟩
        exact known
      | _ =>
        obtain ⟨history, router, ran, present, _⟩ := peopled "" name
        exact ⟨history, router, ran, present, by rintro _ ⟨⟩⟩
    have codeOf {index : Nat} {method : RouterMethod} (found : methods[index]? = some method) :
        (start { router } methods).codes[index]? = some method.code := by
      simp only [start, getElem?_map, found, map_some]
    obtain ⟨before, reached, mode, second, update, inside, arrived, free, indexed, codes⟩ :=
      @opposes_eventually (start { router } methods) other opposes topics rfl (codeOf atOther) known
    have bound : other < (start { router } methods).codes.length :=
      (List.getElem?_eq_some_iff.mp (codeOf atOther)).1
    obtain ⟨final, waited, deadlocked⟩ := @opposed reached deleter other name mode second update inside different free
      (by rw [codes, getElem?_set_ne different.symm, codeOf atDeleter]; rfl) (by rw [indexed]; exact present)
      (by rw [codes, getElem?_set_self bound])
    refine ⟨history, router, ran, before ++ [other, deleter, deleter, deleter, deleter, other], final, _, ?_, deadlocked⟩
    rw [run_append, arrived]
    exact waited
  | _ => cases index

/-- Concurrent calls are free of deadlock, whatever the router holds, exactly when no
`del_worker` is among them together with a call that takes `worker_index` after
`local_topics`. -/
theorem deadlock_free_iff_no_clash (methods : List RouterMethod) :
    (∀ history router idleWorkers, run ConsumerRouter.call {} history = some router → ∀ turns system,
      run System.step (RouterSystem.start { router, idleWorkers } methods) turns = some system →
        ∀ tasks, ¬ system.Deadlocked tasks) ↔ ¬ Clash methods := by
  constructor
  · intro safe clash
    obtain ⟨history, router, built, turns, system, tasks, ran, deadlocked⟩ := clash_deadlocks clash
    exact safe history router ∅ built turns system ran tasks deadlocked
  · intro peace history router idleWorkers _ turns system ran tasks
    exact never_deadlocked peace ran tasks

private def opened : List RouterCall := [.register "orders" (.ok 0), .createWorker { topic := "orders", name := "old" }]

private def rivals : List RouterMethod := [.delWorker "old", .registerWorker "orders" { topic := "orders", name := "new" }]

/-- One worker is deleted while another is registered: each call waits for the other. -/
theorem deletion_meets_registration :
    ∃ router, run ConsumerRouter.call {} opened = some router ∧ ∃ system,
      run System.step (RouterSystem.start { router } rivals) [1, 0, 0, 0, 0, 1] = some system ∧ system.Deadlocked {0, 1} := by
  refine ⟨_, rfl, opposed (by decide) rfl rfl ?_ rfl⟩
  exact (@createWorker_known _ { topic := "orders", name := "old" } _ (lookup_insert _)).1

end EventBase.Proofs.RouterDeadlock
