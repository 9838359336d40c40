import EventBase.Foundations.Run
import EventBase.RouterTasks

/-! A registration call that nothing interrupts is the method of `ConsumerRouter`. -/

namespace EventBase.Proofs.RouterCalls
open Foundations ConsumerRouter

def accessed (router : ConsumerRouter) (change : RouterUpdate) : ConsumerRouter :=
  (RouterRun.update { router := router } change).router

theorem router_update (run : RouterRun) (change : RouterUpdate) :
    (run.update change).router = accessed run.router change := by
  cases change <;> rfl

/-- A call makes its accesses one after another until it returns. -/
inductive Alone : ConsumerRouter → RouterTask → ConsumerRouter → Option CoreError → Prop
  | finished (router : ConsumerRouter) (error : Option CoreError) : Alone router (.finished error) router error
  | access {router final : ConsumerRouter} {task : RouterTask} {error : Option CoreError} (next : RouterTask)
      (change : RouterUpdate) (step : task.next router = some (next, change)) (rest : Alone (accessed router change) next final error) :
      Alone router task final error

def errorOf {α : Type} : Except CoreError α → Option CoreError
  | .error error => some error
  | .ok _ => none

theorem errorOf_map {α β : Type} (f : α → β) (result : Except CoreError α) : errorOf (result.map f) = errorOf result := by
  cases result <;> rfl

def method (router : ConsumerRouter) : RouterTask → Option (Option CoreError × ConsumerRouter)
  | .reading worker => some (errorOf (router.createWorker worker).1, (router.createWorker worker).2)
  | .indexing _ topic worker => some (errorOf (router.registerWorker topic worker).1, (router.registerWorker topic worker).2)
  | .removing name => some (errorOf (router.delWorker name).1, (router.delWorker name).2)
  | .clearing topic => some (errorOf (router.delWorkers topic).1, (router.delWorkers topic).2)
  | _ => none

theorem alone_registerWorker (router : ConsumerRouter) (caller : Caller) (topic : String) (worker : Worker) :
    Alone router (.indexing caller topic worker) (router.registerWorker topic worker).2
      (errorOf (router.registerWorker topic worker).1) := by
  refine .access _ _ rfl ?_
  cases found : router.localTopics.lookup topic with
  | none =>
    have result : router.registerWorker topic worker = (.error (.topic (.notFound topic)), router.indexWorker worker) := by
      simp only [registerWorker, indexWorker, found]
    rw [result]
    refine .access (.finished (some (.topic (.notFound topic)))) .skip ?_ (.finished _ _)
    simp only [RouterTask.next, accessed, RouterRun.update, indexWorker, found]
  | some entry =>
    have result : router.registerWorker topic worker =
        (.ok (), (((router.indexWorker worker).listWorker topic entry worker.name).publishWorker
          topic worker.name).bumpGeneration) := by
      simp only [registerWorker, indexWorker, found]
    rw [result]
    refine .access (.publishing caller topic worker) (.list topic entry worker.name) ?_ (.access _ _ rfl ?_)
    · simp only [RouterTask.next, accessed, RouterRun.update, indexWorker, found]
    · cases caller <;> exact .access _ _ rfl (.finished _ _)

theorem alone_createWorker (router : ConsumerRouter) (worker : Worker) :
    Alone router (.reading worker) (router.createWorker worker).2 (errorOf (router.createWorker worker).1) := by
  cases found : router.localTopics.lookup worker.topic with
  | none =>
    have result : router.createWorker worker = (.error (.topic (.notFound worker.topic)), router) := by
      simp only [createWorker, found]
    rw [result]
    refine .access (.finished (some (.topic (.notFound worker.topic)))) .skip ?_ (.finished _ _)
    simp only [RouterTask.next, found]
  | some entry =>
    have registers := alone_registerWorker
      ((router.attachInbox worker.name).startDispatcher worker.topic entry.queue) .createWorker worker.topic worker
    have result : router.createWorker worker =
        ((((router.attachInbox worker.name).startDispatcher worker.topic entry.queue).registerWorker
          worker.topic worker).1.map fun _ => worker.name,
        (((router.attachInbox worker.name).startDispatcher worker.topic entry.queue).registerWorker
          worker.topic worker).2) := by
      simp only [createWorker, found]
    rw [result, errorOf_map]
    refine .access (.attaching worker entry.queue) .skip (by simp only [RouterTask.next, found]) (.access _ _ rfl ?_)
    unfold startDispatcher at registers ⊢
    by_cases enabled : (router.attachInbox worker.name).isEnabled worker.topic = true
    · rw [if_pos enabled] at registers ⊢
      exact .access _ _ (if_pos enabled) registers
    · rw [if_neg enabled] at registers ⊢
      exact .access _ _ (if_neg enabled) (.access _ _ rfl registers)

theorem alone_delWorker (router : ConsumerRouter) (name : String) :
    Alone router (.removing name) (router.delWorker name).2 (errorOf (router.delWorker name).1) := by
  unfold delWorker
  by_cases indexed : name ∈ router.workerIndex
  · rw [if_pos indexed]
    exact .access _ _ (if_pos indexed)
      (.access _ _ rfl (.access _ _ rfl (.access _ _ rfl (.access _ _ rfl (.finished _ _)))))
  · rw [if_neg indexed]
    exact .access _ _ (if_neg indexed) (.finished _ _)

theorem alone_evicting (router : ConsumerRouter) (topic : String) (workers remaining : List String) :
    Alone router (.evicting topic workers remaining)
      ((((remaining.foldl evict router).removeTopic topic).unpublishTopic topic).disable
        topic).bumpGeneration none := by
  induction remaining generalizing router with
  | nil =>
    exact .access _ _ rfl (.access _ _ rfl (.access _ _ rfl (.access _ _ rfl (.access _ _ rfl (.finished _ _)))))
  | cons name remaining ih =>
    have rest := ih (router.evict name)
    unfold evict at rest
    rw [List.foldl_cons]
    by_cases indexed : name ∈ router.workerIndex
    · rw [if_pos indexed] at rest
      refine .access _ _ (if_pos indexed) (.access _ _ rfl ?_)
      rw [evict, if_pos indexed]
      exact rest
    · rw [if_neg indexed] at rest
      refine .access _ _ (if_neg indexed) ?_
      rw [evict, if_neg indexed]
      exact rest

theorem alone_method {router final task error} (starts : method router task = some (error, final)) :
    Alone router task final error := by
  cases task with
  | reading worker =>
    cases starts
    exact alone_createWorker router worker
  | indexing caller topic worker =>
    cases starts
    exact alone_registerWorker router caller topic worker
  | removing name =>
    cases starts
    exact alone_delWorker router name
  | clearing topic =>
    cases starts
    exact .access _ _ rfl (alone_evicting router topic _ _)
  | _ => cases starts

theorem run_alone (node : Option String) {router final task error} (alone : Alone router task final error) {run index}
    (same : run.router = router) (found : run.tasks[index]? = some task)
    (writer : run.writer = if task.holds then some index else none) :
    ∃ count next, Foundations.run (RouterRun.step node) run (List.replicate count (.advance index)) = some next ∧
      next.router = final ∧ next.tasks[index]? = some (.finished error) ∧ next.writer = none := by
  induction alone generalizing run with
  | finished router error => exact ⟨0, run, rfl, same, found, writer⟩
  | @access router final task error next change step rest ih =>
    subst same
    have inside := (List.getElem?_eq_some_iff.mp found).1
    have free : (task.acquires && run.writer.isSome) = false := by
      rw [writer]
      cases task <;> rfl
    have stepped : run.step node (.advance index) = some
        { run.update change with
          tasks := run.tasks.set index next
          writer := if next.holds then some index else none } := by
      simp only [RouterRun.step, found, RouterRun.advance, free, Bool.false_eq_true, if_false, step, Option.map_some]
      cases next.holds <;> cases holds : task.holds <;> simp [writer, holds]
    obtain ⟨count, last, ran, reached, ended, released⟩ :=
      @ih { run.update change with
        tasks := run.tasks.set index next
        writer := if next.holds then some index else none } (router_update run change) (List.getElem?_set_self inside) rfl
    refine ⟨count + 1, last, ?_, reached, ended, released⟩
    rw [List.replicate_succ, Foundations.run, stepped]
    exact ran

/-- A call that starts with the lock free and is not interrupted leaves the router
and returns the error of the method. -/
theorem uninterrupted_method (node : Option String) {run index task error final} (found : run.tasks[index]? = some task)
    (free : run.writer = none) (starts : method run.router task = some (error, final)) :
    ∃ count next, Foundations.run (RouterRun.step node) run (List.replicate count (.advance index)) = some next ∧
      next.router = final ∧ next.tasks[index]? = some (.finished error) ∧ next.writer = none := by
  refine run_alone node (alone_method starts) rfl found (free.trans ?_)
  cases task <;> first | rfl | cases starts

private def orderly : RouterRun where
  router := (({} : ConsumerRouter).register "orders" (.ok 0)).2
  tasks := [.reading { topic := "orders", name := "cook" }]

theorem cook_created_alone : ∃ count next,
    Foundations.run (RouterRun.step none) orderly (List.replicate count (.advance 0)) = some next ∧
      "cook" ∈ next.router.workerIndex := by
  have found : orderly.tasks[0]? = some (.reading { topic := "orders", name := "cook" }) := rfl
  obtain ⟨count, next, ran, router, _⟩ := uninterrupted_method none found rfl rfl
  exact ⟨count, next, ran, router ▸ by decide +kernel⟩

end EventBase.Proofs.RouterCalls
