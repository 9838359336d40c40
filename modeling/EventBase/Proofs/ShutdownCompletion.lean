import EventBase.ShutdownMethods
import EventBase.Proofs.RouterMaps

/-! Which of the commands a shutdown worker carries out come to their end. It also removes
itself, and what comes after that in the order does not happen. -/

namespace EventBase.Proofs.ShutdownCompletion
open Foundations RouterMaps Shutdown AList

/-- No map of the router mentions the worker. -/
structure Removed (router : ConsumerRouter) (name : String) : Prop where
  unindexed : name ∉ router.workerIndex
  detached : name ∉ router.localInboxes
  unlisted : ∀ topic, name ∉ router.listed topic
  unpublished : ∀ topic, name ∉ router.published topic

section
variable {router : ConsumerRouter} {name other : String}

theorem Removed.unindexWorker (removed : Removed router name) : Removed (router.unindexWorker other) name :=
  ⟨fun present => removed.unindexed (mem_erase.mp present).2, removed.detached, removed.unlisted, removed.unpublished⟩

theorem Removed.detachInbox (removed : Removed router name) : Removed (router.detachInbox other) name :=
  ⟨removed.unindexed, fun present => removed.detached (mem_erase.mp present).2, removed.unlisted, removed.unpublished⟩

theorem Removed.unlistWorker (removed : Removed router name) : Removed (router.unlistWorker other) name := by
  refine ⟨removed.unindexed, removed.detached, fun topic member => ?_, removed.unpublished⟩
  rw [listed_unlistWorker] at member
  exact removed.unlisted topic (List.mem_of_mem_filter member)

theorem Removed.unpublishWorker (removed : Removed router name) : Removed (router.unpublishWorker other) name := by
  refine ⟨removed.unindexed, removed.detached, removed.unlisted, fun topic member => ?_⟩
  rw [published_unpublishWorker] at member
  exact removed.unpublished topic (List.mem_of_mem_filter member)

theorem Removed.bumpGeneration (removed : Removed router name) : Removed router.bumpGeneration name :=
  ⟨removed.unindexed, removed.detached, removed.unlisted, removed.unpublished⟩

def without (router : ConsumerRouter) (name : String) : ConsumerRouter :=
  ((((router.unindexWorker name).detachInbox name).unlistWorker name).unpublishWorker name).bumpGeneration

theorem without_removed (router : ConsumerRouter) (name : String) : Removed (without router name) name := by
  refine ⟨fun present => (mem_erase.mp present).1 rfl, fun present => (mem_erase.mp present).1 rfl,
    fun topic member => ?_, fun topic member => ?_⟩
  · have filtered := listed_unlistWorker ((router.unindexWorker name).detachInbox name) name topic
    have kept : name ∈ (((router.unindexWorker name).detachInbox name).unlistWorker name).listed topic := member
    simp [filtered] at kept
  · have filtered := published_unpublishWorker (((router.unindexWorker name).detachInbox name).unlistWorker name) name topic
    have kept : name ∈
        ((((router.unindexWorker name).detachInbox name).unlistWorker name).unpublishWorker name).published topic := member
    simp [filtered] at kept

theorem mem_without (different : other ≠ name) (present : other ∈ router.workerIndex) :
    other ∈ (without router name).workerIndex := mem_erase.mpr ⟨different, present⟩

end

section
variable {α β : Type} {name : String}

def left (result : EStateM.Result ShutdownEnd ShutdownState α) : ConsumerRouter :=
  match result with
  | .ok _ final | .error _ final => final.router

def Keeps (name : String) (task : ShutdownM α) : Prop :=
  ∀ state, Removed state.router name → Removed (left (task state)) name

theorem Keeps.pure (value : α) : Keeps name (Pure.pure value : ShutdownM α) := fun _ removed => removed

theorem Keeps.throw (cause : ShutdownEnd) : Keeps name (throw cause : ShutdownM α) := fun _ removed => removed

theorem Keeps.get : Keeps name (get : ShutdownM ShutdownState) := fun _ removed => removed

theorem Keeps.modify {change : ShutdownState → ShutdownState}
    (keeps : ∀ state, Removed state.router name → Removed (change state).router name) :
    Keeps name (modify change : ShutdownM Unit) := keeps

theorem Keeps.bind {task : ShutdownM α} {next : α → ShutdownM β} (first : Keeps name task) (rest : ∀ value, Keeps name (next value)) :
    Keeps name (task >>= next) := by
  intro state removed
  have middle := first state removed
  simp only [Bind.bind, EStateM.bind]
  cases ran : task state with
  | ok value later =>
    simp only [ran] at middle
    exact rest value later middle
  | error cause later =>
    simp only [ran] at middle
    exact middle

theorem Keeps.forM {task : α → ShutdownM Unit} (each : ∀ value, Keeps name (task value)) (values : List α) :
    Keeps name (values.forM task) := by
  induction values with
  | nil => exact .pure ()
  | cons value rest ih => exact (each value).bind fun _ => ih

variable (env : ShutdownEnv) (stops : Nat → Bool)

theorem await_eq (state : ShutdownState) : await stops state =
    if state.aborted && stops state.awaits then .error .stopped { state with awaits := state.awaits + 1 }
    else .ok () { state with awaits := state.awaits + 1 } := by
  simp only [await, Bind.bind, EStateM.bind, get, getThe, MonadStateOf.get, EStateM.get, set, EStateM.set]
  split <;> rfl

theorem await_keeps : Keeps name (await stops) := by
  intro state removed
  rw [await_eq]
  cases state.aborted && stops state.awaits <;> exact removed

theorem workerShutdown_keeps : Keeps name (workerShutdown env stops) := by
  refine (await_keeps stops).bind fun _ => (await_keeps stops).bind fun _ => ?_
  exact fun _ removed => removed

theorem delWorker_keeps (other : String) : Keeps name (delWorker env stops other) := by
  refine (await_keeps stops).bind fun _ => (await_keeps stops).bind fun _ => Keeps.get.bind fun state => ?_
  split
  · refine Keeps.bind (.modify fun _ removed => removed.unindexWorker) fun _ => ?_
    refine Keeps.bind (.modify fun _ removed => removed) fun _ => (await_keeps stops).bind fun _ => ?_
    refine Keeps.bind (.modify fun _ removed => removed.detachInbox) fun _ => (await_keeps stops).bind fun _ => ?_
    refine Keeps.bind (.modify fun _ removed => removed.unlistWorker) fun _ => (await_keeps stops).bind fun _ => ?_
    exact Keeps.bind (.modify fun _ removed => removed.unpublishWorker) fun _ => .modify fun _ removed => removed.bumpGeneration
  · exact .pure ()

theorem removeWorker_keeps (strict : Bool) (worker : Worker) : Keeps name (removeWorker env stops strict worker) := by
  refine (workerShutdown_keeps env stops).bind fun answer => ?_
  cases answer with
  | none => exact delWorker_keeps env stops worker.name
  | some error =>
    cases strict with
    | true => exact Keeps.bind (.throw _) fun _ => delWorker_keeps env stops worker.name
    | false => exact delWorker_keeps env stops worker.name

end

section
variable {α β : Type} (env : ShutdownEnv) (stops : Nat → Bool)

variable {state : ShutdownState}

theorem await_passes (alive : state.aborted = false) :
    await stops state = .ok () { state with awaits := state.awaits + 1 } := by
  rw [await_eq, alive]
  rfl

theorem workerShutdown_passes (alive : state.aborted = false) :
    workerShutdown env stops state =
      .ok (env.acks state.acks) { state with awaits := state.awaits + 2, acks := state.acks + 1 } := by
  rw [workerShutdown, bind_ok (await_passes stops alive), bind_ok (await_passes stops (by exact alive))]
  rfl

theorem getAllWorkers_passes (alive : state.aborted = false) :
    getAllWorkers env stops state =
      .ok (env.arrange state.router.getAllWorkers) { state with awaits := state.awaits + 2 } := by
  rw [getAllWorkers, bind_ok (await_passes stops alive), bind_ok (await_passes stops (by exact alive))]
  rfl

theorem delWorker_passes {name} (alive : state.aborted = false) (other : name ≠ env.self)
    (present : name ∈ state.router.workerIndex) :
    delWorker env stops name state =
      .ok () { state with router := without state.router name, awaits := state.awaits + 5 } := by
  have survives : (false || decide (name = env.self)) = false := by simp [other]
  rw [delWorker, bind_ok (await_passes stops alive), bind_ok (await_passes stops (by exact alive))]
  simp only [Bind.bind, EStateM.bind, get, getThe, MonadStateOf.get, EStateM.get, present, if_true, update, modify, modifyGet,
    MonadStateOf.modifyGet, EStateM.modifyGet, alive, survives, await_eq, Bool.false_and, Bool.false_eq_true, if_false]
  rfl

theorem delWorker_stops (alive : state.aborted = false) (present : env.self ∈ state.router.workerIndex) :
    delWorker env (fun _ => true) env.self state =
      .error .stopped
        { state with router := state.router.unindexWorker env.self, aborted := true, awaits := state.awaits + 3 } := by
  rw [delWorker, bind_ok (await_passes _ alive), bind_ok (await_passes _ (by exact alive))]
  simp only [Bind.bind, EStateM.bind, get, getThe, MonadStateOf.get, EStateM.get, present, if_true, update, modify, modifyGet,
    MonadStateOf.modifyGet, EStateM.modifyGet, alive, decide_true, Bool.or_true, await_eq, Bool.and_true]

variable {worker : Worker} {strict : Bool}

theorem removeWorker_passes (alive : state.aborted = false) (other : worker.name ≠ env.self)
    (present : worker.name ∈ state.router.workerIndex) (answered : strict = true → env.acks state.acks = none) :
    removeWorker env stops strict worker state =
      .ok () { router := without state.router worker.name, aborted := false, awaits := state.awaits + 7, acks := state.acks + 1 } := by
  rw [removeWorker, bind_ok (workerShutdown_passes env stops alive)]
  have deleted := @delWorker_passes env stops { state with awaits := state.awaits + 2, acks := state.acks + 1 } worker.name
    alive other present
  rw [← alive]
  cases answer : env.acks state.acks with
  | none => exact deleted
  | some error =>
    cases strict with
    | true => simp [answered rfl] at answer
    | false => exact deleted

theorem removeWorker_fails {error} (alive : state.aborted = false) (refused : env.acks state.acks = some error) :
    removeWorker env stops true worker state =
      .error (.failed error) { state with awaits := state.awaits + 2, acks := state.acks + 1 } := by
  rw [removeWorker, bind_ok (workerShutdown_passes env stops alive), refused]
  rfl

theorem removeWorker_stops (alive : state.aborted = false) (own : worker.name = env.self)
    (present : env.self ∈ state.router.workerIndex) :
    ∃ cause final, removeWorker env (fun _ => true) strict worker state = .error cause final ∧
      ∀ other ∈ state.router.workerIndex, other ≠ env.self → other ∈ final.router.workerIndex := by
  have deleted := @delWorker_stops env { state with awaits := state.awaits + 2, acks := state.acks + 1 } alive present
  rw [← own] at deleted
  have kept : ∀ other ∈ state.router.workerIndex, other ≠ env.self →
      other ∈ (state.router.unindexWorker worker.name).workerIndex :=
    fun other member different => mem_erase.mpr ⟨own ▸ different, member⟩
  rw [removeWorker, bind_ok (workerShutdown_passes env _ alive)]
  cases answer : env.acks state.acks with
  | none => exact ⟨_, _, deleted, kept⟩
  | some error =>
    cases strict with
    | true => exact ⟨_, _, rfl, fun other member _ => member⟩
    | false => exact ⟨_, _, deleted, kept⟩

end

inductive Turn where
  | remove (worker : Worker)
  | pause

def perform (env : ShutdownEnv) (stops : Nat → Bool) (strict : Bool) : Turn → ShutdownM Unit
  | .remove worker => removeWorker env stops strict worker
  | .pause => await stops

def target? : Turn → Option String
  | .remove worker => some worker.name
  | .pause => none

def targets (turns : List Turn) : List String := turns.filterMap target?

theorem perform_keeps {name} (env : ShutdownEnv) (stops : Nat → Bool) (strict : Bool) (turn : Turn) :
    Keeps name (perform env stops strict turn) := by
  cases turn with
  | remove worker => exact removeWorker_keeps env stops strict worker
  | pause => exact await_keeps stops

/-- The workers still to be removed are there, and the executing one is not among them. -/
structure Ahead (env : ShutdownEnv) (state : ShutdownState) (names : List String) : Prop where
  alive : state.aborted = false
  distinct : names.Nodup
  others : env.self ∉ names
  present : ∀ name ∈ names, name ∈ state.router.workerIndex

theorem Ahead.next {env state name names} (ahead : Ahead env state (name :: names)) (awaits acks : Nat) :
    Ahead env { router := without state.router name, aborted := false, awaits, acks } names := by
  obtain ⟨fresh, distinct⟩ := List.nodup_cons.mp ahead.distinct
  refine ⟨rfl, distinct, fun own => ahead.others (List.mem_cons_of_mem _ own), fun other member => ?_⟩
  refine mem_without ?_ (ahead.present other (List.mem_cons_of_mem _ member))
  rintro rfl
  exact fresh member

theorem Ahead.pause {env state names} (ahead : Ahead env state names) (awaits : Nat) :
    Ahead env { state with awaits } names :=
  ⟨ahead.alive, ahead.distinct, ahead.others, ahead.present⟩

section
variable {env : ShutdownEnv} {strict : Bool}

theorem turns_pause (stops : Nat → Bool) (rest : List Turn) {state} (alive : state.aborted = false) :
    (Turn.pause :: rest).forM (perform env stops strict) state =
      rest.forM (perform env stops strict) { state with awaits := state.awaits + 1 } :=
  @bind_ok _ _ _ _ _ (fun _ => rest.forM (perform env stops strict)) _ _ _ (await_passes stops alive)

theorem turns_remove {stops : Nat → Bool} {worker} (rest : List Turn) {state middle}
    (first : removeWorker env stops strict worker state = .ok () middle) :
    (Turn.remove worker :: rest).forM (perform env stops strict) state = rest.forM (perform env stops strict) middle :=
  @bind_ok _ _ _ _ _ (fun _ => rest.forM (perform env stops strict)) _ _ _ first

theorem turns_end {stops : Nat → Bool} {worker} (rest : List Turn) {state final cause}
    (failed : removeWorker env stops strict worker state = .error cause final) :
    (Turn.remove worker :: rest).forM (perform env stops strict) state = .error cause final :=
  @bind_error _ _ _ _ _ (fun _ => rest.forM (perform env stops strict)) _ _ _ failed

theorem turns_append (stops : Nat → Bool) (first rest : List Turn) :
    (first ++ rest).forM (perform env stops strict) =
      (first.forM (perform env stops strict) >>= fun _ => rest.forM (perform env stops strict)) := List.forM_append

theorem turns_clear (stops : Nat → Bool) (turns : List Turn) {state} (ahead : Ahead env state (targets turns))
    (answered : strict = true → ∀ index < (targets turns).length, env.acks (state.acks + index) = none) :
    ∃ final, turns.forM (perform env stops strict) state = .ok () final ∧ final.aborted = false ∧
      (∀ name ∈ targets turns, Removed final.router name) ∧
      ∀ other ∈ state.router.workerIndex, other ∉ targets turns → other ∈ final.router.workerIndex := by
  induction turns generalizing state with
  | nil => exact ⟨state, rfl, ahead.alive, fun _ member => (by cases member), fun _ member _ => member⟩
  | cons turn rest ih =>
    cases turn with
    | pause =>
      obtain ⟨final, ran, alive, removed, kept⟩ := ih (ahead.pause (state.awaits + 1)) answered
      exact ⟨final, (turns_pause stops rest ahead.alive).trans ran, alive, removed, kept⟩
    | remove worker =>
      have first := removeWorker_passes env stops ahead.alive (fun own => ahead.others (own ▸ List.mem_cons_self))
        (ahead.present _ List.mem_cons_self) fun exacting => answered exacting 0 (Nat.succ_pos _)
      have later : strict = true → ∀ index < (targets rest).length, env.acks (state.acks + 1 + index) = none := by
        intro exacting index inside
        rw [Nat.add_right_comm, Nat.add_assoc]
        exact answered exacting (index + 1) (Nat.succ_lt_succ inside)
      obtain ⟨final, ran, alive, removed, kept⟩ := ih (Ahead.next ahead (state.awaits + 7) (state.acks + 1)) later
      refine ⟨final, (turns_remove rest first).trans ran, alive, fun name member => ?_, fun other present absent => ?_⟩
      · obtain rfl | among := List.mem_cons.mp member
        · have stays := Keeps.forM (perform_keeps env stops strict) rest
            { router := without state.router worker.name, aborted := false, awaits := state.awaits + 7, acks := state.acks + 1 }
            (without_removed state.router worker.name)
          rw [ran] at stays
          exact stays
        · exact removed name among
      · obtain ⟨different, elsewhere⟩ := not_or.mp (List.mem_cons.not.mp absent)
        exact kept other (mem_without different present) elsewhere

theorem turns_fail (stops : Nat → Bool) (turns : List Turn) {state} (ahead : Ahead env state (targets turns))
    {index : Nat} (inside : index < (targets turns).length) (refused : env.acks (state.acks + index) ≠ none) :
    ∃ cause final, turns.forM (perform env stops true) state = .error cause final ∧
      ∃ name ∈ targets turns, name ∈ final.router.workerIndex := by
  induction turns generalizing state index with
  | nil => cases inside
  | cons turn rest ih =>
    cases turn with
    | pause =>
      obtain ⟨cause, final, failed, kept⟩ := ih (ahead.pause (state.awaits + 1)) inside refused
      exact ⟨cause, final, (turns_pause stops rest ahead.alive).trans failed, kept⟩
    | remove worker =>
      cases answer : env.acks state.acks with
      | some error =>
        refine ⟨_, _, turns_end rest (removeWorker_fails env stops ahead.alive answer), worker.name, List.mem_cons_self, ?_⟩
        exact ahead.present _ List.mem_cons_self
      | none =>
        have first := removeWorker_passes env stops ahead.alive (fun own => ahead.others (own ▸ List.mem_cons_self))
          (ahead.present _ List.mem_cons_self) fun (_ : true = true) => answer
        cases index with
        | zero => exact absurd answer refused
        | succ index =>
          have later : env.acks (state.acks + 1 + index) ≠ none := by rwa [Nat.add_right_comm, Nat.add_assoc]
          obtain ⟨cause, final, failed, name, member, kept⟩ :=
            ih (Ahead.next ahead (state.awaits + 7) (state.acks + 1)) (Nat.lt_of_succ_lt_succ inside) later
          exact ⟨cause, final, (turns_remove rest first).trans failed, name, List.mem_cons_of_mem _ member, kept⟩

end

theorem targets_split {turns own} (member : own ∈ targets turns) :
    ∃ before worker after, turns = before ++ .remove worker :: after ∧ worker.name = own := by
  obtain ⟨turn, listed, shown⟩ := List.mem_filterMap.mp member
  obtain ⟨before, after, rfl⟩ := List.append_of_mem listed
  cases turn with
  | pause => cases shown
  | remove worker => exact ⟨before, worker, after, rfl, Option.some.inj shown⟩

theorem targets_append (before after : List Turn) (worker : Worker) :
    targets (before ++ .remove worker :: after) = targets before ++ worker.name :: targets after := by
  simp [targets, target?]

def Acknowledged (env : ShutdownEnv) (strict : Bool) (count : Nat) : Prop :=
  strict = true → ∀ index, index + 1 < count → env.acks index = none

theorem turns_finish_iff {env strict turns state} (alive : state.aborted = false) (silent : state.acks = 0)
    (distinct : (targets turns).Nodup) (own : env.self ∈ targets turns)
    (present : ∀ name ∈ targets turns, name ∈ state.router.workerIndex) :
    (∀ stops, ∀ name ∈ targets turns, name ≠ env.self →
      Removed (left (turns.forM (perform env stops strict) state)) name) ↔
    (targets turns).getLast? = some env.self ∧ Acknowledged env strict (targets turns).length := by
  obtain ⟨before, worker, after, rfl, named⟩ := targets_split own
  have split := targets_append before after worker
  rw [split] at distinct present ⊢
  rw [named] at distinct present ⊢
  obtain ⟨earlier, later, apart⟩ := List.nodup_append.mp distinct
  obtain ⟨fresh, -⟩ := List.nodup_cons.mp later
  have ahead : Ahead env state (targets before) := by
    refine ⟨alive, earlier, fun among => ?_, fun name member => present name (List.mem_append_left _ member)⟩
    exact apart _ among _ List.mem_cons_self rfl
  have own : env.self ∈ state.router.workerIndex := present _ (List.mem_append_right _ List.mem_cons_self)
  have split_run (stops : Nat → Bool) : (before ++ .remove worker :: after).forM (perform env stops strict) state = _ :=
    congrFun (turns_append stops before (.remove worker :: after)) state
  constructor
  · intro finishes
    have answered : strict = true → ∀ index < (targets before).length, env.acks (state.acks + index) = none := by
      rintro rfl index inside
      by_contra refused
      obtain ⟨cause, final, failed, name, member, kept⟩ := turns_fail (fun _ => false) before ahead inside refused
      have removed := finishes (fun _ => false) name (List.mem_append_left _ member) fun same => ahead.others (same ▸ member)
      rw [split_run, bind_error failed] at removed
      exact removed.unindexed kept
    obtain ⟨middle, cleared, still, -, kept⟩ := turns_clear (fun _ => true) before ahead answered
    obtain ⟨cause, final, failed, remain⟩ := @removeWorker_stops env middle worker strict still named (kept _ own ahead.others)
    have last : targets after = [] := by
      by_contra more
      obtain ⟨name, rest, leads⟩ := List.exists_cons_of_ne_nil more
      have member : name ∈ targets after := leads ▸ List.mem_cons_self
      have different : name ≠ env.self := fun same => fresh (same ▸ member)
      have listed : name ∈ targets before ++ env.self :: targets after :=
        List.mem_append_right _ (List.mem_cons_of_mem _ member)
      have removed := finishes (fun _ => true) name listed different
      rw [split_run, bind_ok cleared, turns_end after failed] at removed
      refine removed.unindexed (remain name (kept name (present name listed) fun early => ?_) different)
      exact apart name early name (List.mem_cons_of_mem _ member) rfl
    rw [last]
    refine ⟨List.getLast?_concat, fun exacting index inside => ?_⟩
    rw [List.length_append, List.length_singleton] at inside
    have answer := answered exacting index (Nat.lt_of_succ_lt_succ inside)
    rwa [silent, Nat.zero_add] at answer
  · rintro ⟨last, acknowledged⟩ stops name member different
    have alone : targets after = [] := by
      by_contra more
      rw [List.getLast?_append_of_ne_nil _ (List.cons_ne_nil _ _), List.getLast?_cons_of_ne_nil more] at last
      exact fresh (List.mem_of_getLast? last)
    rw [alone] at member acknowledged
    obtain ⟨middle, cleared, -, removed, -⟩ := turns_clear stops before ahead fun exacting index inside => by
      rw [silent, Nat.zero_add]
      refine acknowledged exacting index ?_
      rw [List.length_append, List.length_singleton]
      omega
    have earlier : name ∈ targets before := by
      obtain found | found := List.mem_append.mp member
      · exact found
      · exact absurd (List.mem_singleton.mp found) different
    have stays := Keeps.forM (perform_keeps env stops strict) (.remove worker :: after) middle (removed name earlier)
    rw [split_run, bind_ok cleared]
    exact stays

private theorem flatten_toChunks_go {α : Type} (size : Nat) (values : List α) (chunk : Array α) (done : Array (List α)) :
    (List.toChunks.go size values chunk done).flatten = done.toList.flatten ++ (chunk.toList ++ values) := by
  induction values generalizing chunk done with
  | nil => simp [List.toChunks.go]
  | cons value rest ih =>
    rw [List.toChunks.go]
    split <;> simp [ih]

theorem flatten_toChunks {α : Type} (size : Nat) (values : List α) : (values.toChunks size).flatten = values := by
  cases values with
  | nil => cases size <;> rfl
  | cons value rest =>
    cases size with
    | zero => simp [List.toChunks]
    | succ size => simp [List.toChunks, flatten_toChunks_go]

def batches (size : Nat) (workers : List Worker) : List Turn :=
  (workers.toChunks size).flatMap fun chunk => chunk.map .remove ++ [.pause]

theorem targets_removals (workers : List Worker) : targets (workers.map .remove) = workers.map Worker.name := by
  induction workers with
  | nil => rfl
  | cons worker rest ih => rw [List.map_cons, List.map_cons, ← ih]; rfl

theorem targets_batches (size : Nat) (workers : List Worker) : targets (batches size workers) = workers.map Worker.name := by
  have chunks (lists : List (List Worker)) :
      targets (lists.flatMap fun chunk => chunk.map .remove ++ [.pause]) = lists.flatten.map Worker.name := by
    induction lists with
    | nil => rfl
    | cons chunk rest ih =>
      rw [List.flatMap_cons, targets, List.filterMap_append, List.filterMap_append, List.flatten_cons, List.map_append, ← ih,
        ← targets_removals chunk]
      simp [targets, target?]
  rw [batches, chunks, flatten_toChunks]

section
variable (env : ShutdownEnv) (stops : Nat → Bool) (strict : Bool)

theorem forM_removals (workers : List Worker) :
    workers.forM (removeWorker env stops strict) = (workers.map .remove).forM (perform env stops strict) := by
  induction workers with
  | nil => rfl
  | cons worker rest ih =>
    change (removeWorker env stops strict worker >>= fun _ => rest.forM _) = (removeWorker env stops strict worker >>= fun _ => _)
    rw [ih]

theorem forM_batches (chunks : List (List Worker)) :
    (chunks.forM fun chunk => do
      chunk.forM (removeWorker env stops strict)
      await stops) = (chunks.flatMap fun chunk => chunk.map .remove ++ [.pause]).forM (perform env stops strict) := by
  induction chunks with
  | nil => rfl
  | cons chunk rest ih =>
    have first : (chunk.map Turn.remove ++ [Turn.pause]).forM (perform env stops strict) =
        (chunk.forM (removeWorker env stops strict) >>= fun _ => await stops) := by
      have pause : [Turn.pause].forM (perform env stops strict) = await stops := bind_pure_unit
      rw [turns_append, forM_removals, pause]
    rw [List.flatMap_cons, turns_append, ← ih, first]
    rfl

variable {env} {state : ShutdownState}

theorem force_turns (alive : state.aborted = false) :
    shutdownForce env stops state =
      ((env.arrange state.router.getAllWorkers).map .remove).forM (perform env stops false)
        { state with awaits := state.awaits + 2 } := by
  rw [shutdownForce, bind_ok (getAllWorkers_passes env stops alive), forM_removals]

theorem batched_turns {size : Nat} (positive : size ≠ 0) (alive : state.aborted = false) :
    shutdownBatched env stops size state =
      (batches size (env.arrange state.router.getAllWorkers)).forM (perform env stops false)
        { state with awaits := state.awaits + 2 } := by
  rw [shutdownBatched, bind_ok (getAllWorkers_passes env stops alive), if_neg positive, batches, ← forM_batches]

theorem polls_pass (present : ∃ worker ∈ state.router.getAllWorkers, worker.name = env.self) (alive : state.aborted = false)
    (count : Nat) :
    twoStageFrom env stops count state =
      ((env.arrange state.router.getAllWorkers).map .remove).forM (perform env stops true)
        { state with awaits := state.awaits + 3 * count + 2 } := by
  induction count generalizing state with
  | zero => rw [twoStageFrom, bind_ok (getAllWorkers_passes env stops alive), forM_removals, Nat.mul_zero, Nat.add_zero]
  | succ count ih =>
    obtain ⟨worker, member, own⟩ := present
    have listed : worker ∈ env.arrange state.router.getAllWorkers := (env.arranged _).mem_iff.mpr member
    have some : (env.arrange state.router.getAllWorkers).isEmpty = false := by
      cases order : env.arrange state.router.getAllWorkers with
      | nil => simp [order] at listed
      | cons => rfl
    have busy : (env.arrange state.router.getAllWorkers).all (isShutdownComplete env (env.polls - (count + 1))) = false := by
      rw [List.all_eq_false]
      exact ⟨worker, listed, by simp [isShutdownComplete, own]⟩
    have rest := @ih { state with awaits := state.awaits + 3 } ⟨worker, member, own⟩ alive
    rw [Nat.mul_succ, ← Nat.add_assoc, Nat.add_right_comm state.awaits]
    rw [twoStageFrom, bind_ok (getAllWorkers_passes env stops alive)]
    simp only [some, busy, Bool.false_eq_true, if_false]
    rw [bind_ok (await_passes stops (by exact alive))]
    exact rest

end

/-- The executing worker is the last to be removed; batches are not empty, and in the two-stage
strategy the acknowledgements of the others are sent. -/
def Completes (env : ShutdownEnv) (names : List String) : ShutdownStrategy → Prop
  | .force | .timeout => names.getLast? = some env.self
  | .batched size => names = [env.self] ∨ size ≠ 0 ∧ names.getLast? = some env.self
  | .twoStage => names.getLast? = some env.self ∧ ∀ index, index + 1 < names.length → env.acks index = none

def Finishes (env : ShutdownEnv) (stops : Nat → Bool) (router : ConsumerRouter) (strategy : ShutdownStrategy) : Prop :=
  ∀ name ∈ router.workerIndex, name ≠ env.self → Removed (leaves env stops router strategy) name

section
variable {env : ShutdownEnv} {router : ConsumerRouter}

theorem leaves_eq {stops : Nat → Bool} {strategy result} (ran : handler env stops strategy { router } = result) :
    leaves env stops router strategy = left result := by
  rw [leaves, ran]
  cases result <;> rfl

theorem names_perm (consistent : Consistent router) :
    ((env.arrange router.getAllWorkers).map Worker.name).Perm router.workerIndex.keys := by
  rw [← getAllWorkers_names consistent]
  exact (env.arranged _).map _

theorem loop_finishes_iff (consistent : Consistent router) (own : env.self ∈ router.workerIndex) {strategy strict turns}
    {awaits : Nat} (named : targets turns = (env.arrange router.getAllWorkers).map Worker.name)
    (loops : ∀ stops, leaves env stops router strategy = left (turns.forM (perform env stops strict) { router, awaits })) :
    (∀ stops, Finishes env stops router strategy) ↔
      ((env.arrange router.getAllWorkers).map Worker.name).getLast? = some env.self ∧
        Acknowledged env strict ((env.arrange router.getAllWorkers).map Worker.name).length := by
  have names : (targets turns).Perm router.workerIndex.keys := named ▸ names_perm consistent
  have finish := @turns_finish_iff env strict turns { router, awaits } rfl rfl
    (names.nodup_iff.mpr router.workerIndex.keys_nodup) (names.mem_iff.mpr own) fun name member => names.mem_iff.mp member
  rw [← named, ← finish]
  constructor
  · intro finishes stops name member different
    have removed := finishes stops name (names.mem_iff.mp member) different
    rwa [loops stops] at removed
  · intro finishes stops name member different
    rw [loops stops]
    exact finishes stops name (names.mem_iff.mpr member) different

theorem empty_batches_iff (consistent : Consistent router) (own : env.self ∈ router.workerIndex) :
    (∀ stops, Finishes env stops router (.batched 0)) ↔ (env.arrange router.getAllWorkers).map Worker.name = [env.self] := by
  have untouched (stops : Nat → Bool) : leaves env stops router (.batched 0) = router := by
    have panics : shutdownBatched env stops 0 { router } = .error .panicked { router, awaits := 2 } := by
      rw [shutdownBatched, bind_ok (getAllWorkers_passes env stops rfl)]
      rfl
    simp only [leaves, handler, panics]
  have names := @names_perm env router consistent
  constructor
  · intro finishes
    have only : ∀ name ∈ (env.arrange router.getAllWorkers).map Worker.name, name = env.self := by
      intro name member
      by_contra different
      have present := names.mem_iff.mp member
      have removed := finishes (fun _ => false) name present different
      rw [untouched] at removed
      exact removed.unindexed present
    have distinct := names.nodup_iff.mpr router.workerIndex.keys_nodup
    have listed := names.mem_iff.mpr own
    generalize (env.arrange router.getAllWorkers).map Worker.name = order at only distinct listed
    obtain ⟨count, rfl⟩ : ∃ count, order = List.replicate count env.self := ⟨_, List.eq_replicate_of_mem only⟩
    rw [List.nodup_replicate] at distinct
    have positive : 0 < count := List.length_pos_iff.mpr (List.ne_nil_of_mem listed) |>.trans_eq List.length_replicate
    rw [Nat.le_antisymm distinct positive]
    rfl
  · intro alone stops name member different
    have listed := names.mem_iff.mpr member
    rw [alone, List.mem_singleton] at listed
    exact absurd listed different

end

/-- The command finishes, wherever its aborted task may be stopped, exactly when the worker that
runs it comes last (and, with the strategy, the batches and acknowledgements allow it). -/
theorem command_finishes_iff {calls : List RouterCall} {router : ConsumerRouter}
    (ran : run ConsumerRouter.call {} calls = some router) (env : ShutdownEnv) (own : env.self ∈ router.workerIndex)
    (strategy : ShutdownStrategy) :
    (∀ stops, Finishes env stops router strategy) ↔
      Completes env ((env.arrange router.getAllWorkers).map Worker.name) strategy := by
  have consistent : Consistent router :=
    run_preserves Consistent (fun consistent called => consistent_call consistent called) consistent_init ran
  have lenient {names : List String} {count : Nat} :
      names.getLast? = some env.self ∧ Acknowledged env false count ↔ names.getLast? = some env.self :=
    and_iff_left Bool.noConfusion
  cases strategy with
  | force =>
    have loops (stops : Nat → Bool) := @leaves_eq env router stops .force _ (@force_turns env stops { router } rfl)
    exact (loop_finishes_iff consistent own (targets_removals _) loops).trans lenient
  | timeout =>
    have waits (stops : Nat → Bool) : shutdownTimeout env stops { router } = shutdownForce env stops { router, awaits := 1 } :=
      bind_ok (@await_passes stops { router } rfl)
    have loops (stops : Nat → Bool) := @leaves_eq env router stops .timeout _
      ((waits stops).trans (@force_turns env stops { router, awaits := 1 } rfl))
    exact (loop_finishes_iff consistent own (targets_removals _) loops).trans lenient
  | twoStage =>
    have present : ∃ worker ∈ router.getAllWorkers, worker.name = env.self := by
      rw [← List.mem_map, getAllWorkers_names consistent]
      exact own
    have loops (stops : Nat → Bool) := @leaves_eq env router stops .twoStage _
      (@polls_pass env stops { router } present rfl env.polls)
    refine (loop_finishes_iff consistent own (targets_removals _) loops).trans ?_
    exact and_congr_right fun _ => ⟨fun acknowledged => acknowledged rfl, fun answered _ => answered⟩
  | batched size =>
    by_cases empty : size = 0
    · subst empty
      rw [empty_batches_iff consistent own]
      exact (or_iff_left fun both => both.1 rfl).symm
    · have loops (stops : Nat → Bool) := @leaves_eq env router stops (.batched size) _
        (@batched_turns env stops { router } size empty rfl)
      refine ((loop_finishes_iff consistent own (targets_batches size _) loops).trans lenient).trans ?_
      constructor
      · exact fun last => .inr ⟨empty, last⟩
      · rintro (alone | ⟨-, last⟩)
        · rw [alone]
          rfl
        · exact last

private def pair : List RouterCall :=
  [.register "_system.shutdown" (.ok 0), .createWorker { topic := "_system.shutdown", name := "a" },
    .createWorker { topic := "_system.shutdown", name := "b" }]

private def inOrder (self : String) : ShutdownEnv := ⟨self, id, fun _ => .refl _, fun _ => none, fun _ _ => false, 0⟩

/-- The map is iterated from the newest worker to the oldest here. -/
theorem last_worker_finishes :
    ∃ router, run ConsumerRouter.call {} pair = some router ∧ "a" ∈ router.workerIndex ∧
      ∀ stops, Finishes (inOrder "a") stops router .force := by
  refine ⟨_, rfl, by decide, ?_⟩
  exact (command_finishes_iff (rfl : run ConsumerRouter.call {} pair = _) (inOrder "a") (by decide) .force).mpr rfl

/-- The first worker removes itself, and its task is stopped before it gets to the second. -/
theorem first_worker_leaves_second :
    ∃ router, run ConsumerRouter.call {} pair = some router ∧ "b" ∈ router.workerIndex ∧
      "a" ∈ (leaves (inOrder "b") (fun _ => true) router .force).workerIndex := by
  refine ⟨_, rfl, by decide, ?_⟩
  decide

end EventBase.Proofs.ShutdownCompletion
