import EventBase.Proofs.DispatcherConservation
import EventBase.Proofs.RouterTasks

/-! Dispatcher caches against the router's calls, taken one access at a time. Every topic is
a registry of `GenerationCache`. -/

namespace EventBase.Proofs.CacheCoherence

open EventBase Foundations GenerationCache RouterTasks DispatcherConservation List

def registryOf (run : RouterRun) (topic : String) : Registry String Nat where
  generation := run.router.dispatchGeneration
  names := run.router.published topic
  handle := fun name => run.router.localInboxes.lookup name
  gone := (run.loadOf topic).gone
  due := (run.loadOf topic).due
  lost := run.doomed

def cacheOf (dispatcher : Dispatcher) : Cache String Nat :=
  ⟨dispatcher.seenGeneration, dispatcher.cached.map fun worker => (worker.name, worker.channel)⟩

theorem mem_due {run : RouterRun} {topic name} :
    name ∈ (run.loadOf topic).due ↔ (name, topic) ∈ run.created := by
  simp [RouterRun.loadOf]

theorem sound_registry {run} (registered : Registered run) (topic : String) :
    (registryOf run topic).Sound where
  detached := fun name removed => AList.lookup_eq_none.mpr (registered.deleted name removed).2
  served := by
    intro name due kept
    have served := registered.served name topic (mem_due.mp due) kept
    exact ⟨served.published, AList.lookup_isSome.mpr served.mapped⟩

theorem advances_update (run : RouterRun) (change : RouterUpdate) (topic : String) :
    (registryOf run topic).Advances (registryOf (run.update change) topic) := by
  have still {before after : Registry String Nat} (generation : after.generation = before.generation)
      (gone : after.gone = before.gone) (due : after.due = before.due) (lost : before.lost ⊆ after.lost) :
      before.Advances after :=
    ⟨generation.ge, gone ▸ Subset.refl _, due ▸ Subset.refl _, lost, fun _ => ⟨gone, due⟩⟩
  have moved {before after : Registry String Nat} (generation : after.generation = before.generation + 1)
      (gone : before.gone ⊆ after.gone) (due : before.due ⊆ after.due) (lost : before.lost ⊆ after.lost) :
      before.Advances after :=
    ⟨by omega, gone, due, lost, fun same => by omega⟩
  cases change with
  | unindex name => exact still rfl rfl rfl (subset_cons_self _ _)
  | registered => exact moved rfl (Subset.refl _) (Subset.refl _) (Subset.refl _)
  | created created name =>
    refine moved rfl (Subset.refl _) ?_ (Subset.refl _)
    intro other due
    exact mem_due.mpr (mem_cons_of_mem _ (mem_due.mp due))
  | deleted names => exact moved rfl (subset_append_right _ _) (Subset.refl _) (Subset.refl _)
  | _ => exact still rfl rfl rfl (Subset.refl _)

/-- Every dispatcher that was spawned is coherent; the other loops have not run. -/
structure CachesCoherent (run : RouterRun) : Prop where
  tracked : Tracked run
  coherent : ∀ {index : Nat} {spawned}, run.router.dispatchers[index]? = some spawned →
    Coherent (registryOf run spawned.topic) (cacheOf (run.loops index).dispatcher) (run.loops index).phase
  unspawned : ∀ {index : Nat}, run.router.dispatchers[index]? = none → run.loops index = {}
  cached : ∀ index, ∀ worker ∈ (run.loops index).dispatcher.cached, worker ∈ run.attached
  offered : ∀ offer ∈ run.offers, offer.worker ∈ run.attached ∧ offer.worker.name ∉ offer.load.gone

theorem coherent_spawned (registry : Registry String Nat) : Coherent registry (cacheOf {}) .idle :=
  Coherent.invalidate []

theorem dispatchers_update (run : RouterRun) (change : RouterUpdate) :
    (run.update change).router.dispatchers = run.router.dispatchers ∨
      ∃ spawned, (run.update change).router.dispatchers = run.router.dispatchers ++ [spawned] := by
  cases change with
  | spawn topic queue => exact .inr ⟨⟨topic, queue⟩, rfl⟩
  | _ => exact .inl rfl

theorem attached_update (run : RouterRun) (change : RouterUpdate) : run.attached ⊆ (run.update change).attached := by
  cases change with
  | attach name => exact subset_cons_self _ _
  | _ => exact Subset.refl _

theorem coherent_update {run} (caches : CachesCoherent run) (change : RouterUpdate) {index spawned}
    (found : (run.update change).router.dispatchers[index]? = some spawned) :
    Coherent (registryOf (run.update change) spawned.topic) (cacheOf (run.loops index).dispatcher)
      (run.loops index).phase := by
  cases before : run.router.dispatchers[index]? with
  | none =>
    rw [caches.unspawned before]
    exact coherent_spawned _
  | some old =>
    have same : old = spawned := by
      obtain kept | ⟨new, grown⟩ := dispatchers_update run change
      · rw [kept, before] at found
        exact Option.some.inj found
      · rw [grown, List.getElem?_append_left (List.getElem?_eq_some_iff.mp before).1, before] at found
        exact Option.some.inj found
    rw [← same]
    exact (caches.coherent before).advances (advances_update run change old.topic)

theorem unspawned_update {run} (caches : CachesCoherent run) (change : RouterUpdate) {index}
    (absent : (run.update change).router.dispatchers[index]? = none) : run.loops index = {} := by
  apply caches.unspawned
  obtain kept | ⟨new, grown⟩ := dispatchers_update run change
  · rw [← kept]
    exact absent
  · rw [grown, getElem?_eq_none_iff, length_append] at absent
    exact getElem?_eq_none (by omega)

theorem caches_access {run index task next change} (caches : CachesCoherent run)
    (tracked : Tracked (accessed run index task next change)) :
    CachesCoherent (accessed run index task next change) := by
  obtain ⟨_, _, _, loops, offers⟩ := update_frame run change
  refine ⟨tracked, ?_, ?_, ?_, ?_⟩
  · intro place spawned present
    change Coherent _ (cacheOf ((run.update change).loops place).dispatcher) ((run.update change).loops place).phase
    rw [loops]
    exact coherent_update caches change present
  · intro place absent
    change (run.update change).loops place = {}
    rw [loops]
    exact unspawned_update caches change absent
  · intro place worker member
    change worker ∈ ((run.update change).loops place).dispatcher.cached at member
    rw [loops] at member
    exact attached_update run change (caches.cached place worker member)
  · intro offer member
    change offer ∈ (run.update change).offers at member
    rw [offers] at member
    exact ⟨attached_update run change (caches.offered offer member).1, (caches.offered offer member).2⟩

theorem caches_start {run} (caches : CachesCoherent run) {task used}
    (tracked : Tracked ({ run with used := used }.start task)) : CachesCoherent ({ run with used := used }.start task) :=
  { caches with tracked := tracked, coherent := fun found => caches.coherent found }

theorem caches_register {run} (caches : CachesCoherent run) (topic : String) (created : Except CoreError Nat) :
    CachesCoherent { run with router := (run.router.register topic created).2 } := by
  have tracked := tracked_register caches.tracked topic created
  obtain ⟨topics, frame⟩ := RouterMaps.register_frame run.router topic created
  rw [frame] at tracked ⊢
  exact { caches with tracked := tracked, coherent := fun found => caches.coherent found }

theorem loops_setLoop (run : RouterRun) (index : Nat) (loop : DispatchLoop) (place : Nat) :
    (run.setLoop index loop).loops place = if place = index then loop else run.loops place := rfl

section
variable {run : RouterRun} (caches : CachesCoherent run)
include caches

theorem CachesCoherent.spawned (index : Nat) (running : (run.loops index).phase ≠ .idle) :
    ∃ spawned, run.router.dispatchers[index]? = some spawned := by
  cases found : run.router.dispatchers[index]? with
  | some spawned => exact ⟨spawned, rfl⟩
  | none =>
    rw [caches.unspawned found] at running
    exact absurd rfl running

theorem CachesCoherent.setLoop {index spawned loop offers} (found : run.router.dispatchers[index]? = some spawned)
    (coherent : Coherent (registryOf run spawned.topic) (cacheOf loop.dispatcher) loop.phase)
    (cached : ∀ worker ∈ loop.dispatcher.cached, worker ∈ run.attached)
    (offered : ∀ offer ∈ offers, offer.worker ∈ run.attached ∧ offer.worker.name ∉ offer.load.gone) :
    CachesCoherent { run.setLoop index loop with offers := offers } := by
  refine ⟨caches.tracked.reframe _ _, ?_, ?_, ?_, offered⟩
  · intro place other present
    change Coherent (registryOf run other.topic) (cacheOf ((run.setLoop index loop).loops place).dispatcher)
      ((run.setLoop index loop).loops place).phase
    rw [loops_setLoop]
    split
    · next same =>
      subst same
      cases found.symm.trans present
      exact coherent
    · exact caches.coherent present
  · intro place absent
    change (run.setLoop index loop).loops place = {}
    rw [loops_setLoop]
    split
    · next same =>
      subst same
      cases found.symm.trans absent
    · exact caches.unspawned absent
  · intro place worker member
    change worker ∈ ((run.setLoop index loop).loops place).dispatcher.cached at member
    rw [loops_setLoop] at member
    split at member
    · exact cached worker member
    · exact caches.cached place worker member

theorem CachesCoherent.load {index spawned dispatcher phase} (found : run.router.dispatchers[index]? = some spawned)
    (loop : run.loops index = ⟨dispatcher, phase⟩) (after : Phase String)
    (coherent : Coherent (registryOf run spawned.topic) (cacheOf dispatcher) phase →
      Coherent (registryOf run spawned.topic) (cacheOf dispatcher) after) :
    CachesCoherent (run.setLoop index ⟨dispatcher, after⟩) := by
  have before := caches.coherent found
  have cached := caches.cached index
  rw [loop] at before cached
  exact caches.setLoop found (coherent before) cached caches.offered

end

theorem cacheOf_setCache (run : RouterRun) (dispatcher : Dispatcher) (generation : Nat) (names : List String) (topic : String) :
    cacheOf (dispatcher.setCache generation (Dispatcher.cacheOf names run.router.localInboxes)) =
      ⟨some generation, (registryOf run topic).collect names⟩ := by
  simp only [cacheOf, Dispatcher.setCache, Dispatcher.cacheOf, Registry.collect, registryOf, map_filterMap,
    Option.map_map]
  rfl

theorem attached_of_cacheOf {run} (channels : Channels run) {names worker}
    (member : worker ∈ Dispatcher.cacheOf names run.router.localInboxes) : worker ∈ run.attached := by
  obtain ⟨name, _, made⟩ := mem_filterMap.mp member
  obtain ⟨channel, mapped, rfl⟩ := Option.map_eq_some_iff.mp made
  exact channels.mapped mapped

theorem caches_readInboxes {run} (caches : CachesCoherent run) {index generation dispatcher names load}
    (loop : run.loops index = ⟨dispatcher, .named generation names load⟩) :
    CachesCoherent (run.setLoop index
      ⟨dispatcher.setCache generation (Dispatcher.cacheOf names run.router.localInboxes), .ready load⟩) := by
  obtain ⟨spawned, found⟩ := caches.spawned index (by rw [loop]; nofun)
  have before := caches.coherent found
  rw [loop] at before
  refine caches.setLoop found ?_ (fun worker => attached_of_cacheOf caches.tracked.channels) caches.offered
  have read := before.readHandles (sound_registry caches.tracked.registered spawned.topic)
  rwa [← cacheOf_setCache run dispatcher generation names spawned.topic] at read

theorem plan_deliver_mem {node} {dispatcher : Dispatcher} {msg delivered worker}
    (planned : (Dispatcher.plan node dispatcher.cached dispatcher.cursor msg).1 = .deliver worker delivered) :
    worker ∈ dispatcher.cached := by
  obtain ⟨_, decided, cases⟩ := plan_cases node dispatcher.cached dispatcher.cursor msg
  cases decided.symm.trans planned
  cases cases with
  | deliver member => exact member

theorem caches_act {node} {run : RouterRun} (caches : CachesCoherent run) {index dispatcher load}
    (loop : run.loops index = ⟨dispatcher, .ready load⟩) (msg : EMessage) (accepted : Bool) :
    CachesCoherent (run.act node index load msg accepted) := by
  obtain ⟨spawned, found⟩ := caches.spawned index (by rw [loop]; nofun)
  have before := caches.coherent found
  have cached := caches.cached index
  simp only [RouterRun.act, loop] at before cached ⊢
  split
  · next worker delivered planned =>
    have member := plan_deliver_mem planned
    refine caches.setLoop found ?_ ?_ ?_
    · cases accepted with
      | true => exact before.idle
      | false => exact Coherent.invalidate _
    · cases accepted <;> exact cached
    · intro offer offered
      obtain rfl | earlier := mem_cons.mp offered
      · refine ⟨cached worker member, before.reading.1 worker.name ?_⟩
        simpa [cacheOf] using ⟨worker, member, rfl⟩
      · exact caches.offered offer earlier
  · exact caches.setLoop found before.idle cached caches.offered

theorem current_of_not_stale {dispatcher : Dispatcher} {generation} (current : dispatcher.isStale generation = false) :
    dispatcher.seenGeneration = some generation := by
  simp only [Dispatcher.isStale, Bool.or_eq_false_iff, decide_eq_false_iff_not, not_not] at current
  exact current.1

theorem caches_move {run next event} (caches : CachesCoherent run) (moves : RunMoves run event next)
    (call : dispatches event = false) : CachesCoherent next := by
  have tracked := tracked_move caches.tracked moves
  cases moves with
  | register topic created => exact caches_register caches topic created
  | start => exact caches_start caches tracked
  | access => exact caches_access caches tracked
  | dispatch _ _ _ loop => cases call.symm.trans loop

theorem caches_step {node} {run next : RouterRun} {event} (caches : CachesCoherent run)
    (stepped : run.step node event = some next) : CachesCoherent next := by
  cases event with
  | register | createWorker | registerWorker | delWorker | delWorkers | advance =>
    exact caches_move caches (step_moves stepped) rfl
  | load index =>
    simp only [RouterRun.step] at stepped
    split at stepped
    · next spawned dispatcher found loop =>
      split at stepped <;> cases stepped
      · exact caches.load found loop _ fun before => before.loadStale
      · next stale =>
        refine caches.load found loop _ fun before => before.loadCurrent ?_
        exact current_of_not_stale (Bool.eq_false_iff.mpr stale)
    · cases stepped
  | readNames index =>
    simp only [RouterRun.step] at stepped
    split at stepped
    · next spawned dispatcher generation load found loop =>
      cases stepped
      exact caches.load found loop _ fun before => before.readNames (sound_registry caches.tracked.registered _)
    · cases stepped
  | readInboxes index =>
    simp only [RouterRun.step] at stepped
    split at stepped
    · next dispatcher generation names load loop =>
      cases stepped
      exact caches_readInboxes caches loop
    · cases stepped
  | act index msg accepted =>
    simp only [RouterRun.step] at stepped
    split at stepped
    · next dispatcher load loop =>
      cases stepped
      exact caches_act caches loop msg accepted
    · cases stepped

theorem caches_init : CachesCoherent {} where
  tracked := tracked_init
  coherent := nofun
  unspawned := fun _ => rfl
  cached := nofun
  offered := nofun

/-- However the calls and the dispatchers interleave, an iteration offers nothing
to the inbox of a worker whose deletion had returned when it loaded the
generation, and once its cache is ready it has every worker of its topic that
`create_worker` had returned by then, except those deleted since. -/
theorem dispatcher_caches_coherent {node events run}
    (ran : Foundations.run (RouterRun.step node) {} events = some run) :
    (∀ offer ∈ run.offers, offer.worker.name ∉ offer.load.gone ∧
      ∀ inbox ∈ run.attached, inbox.name ∈ offer.load.gone → inbox.channel ≠ offer.worker.channel) ∧
    (∀ index load, (run.loops index).phase = .ready load → ∀ name ∈ load.due, name ∉ run.doomed →
      name ∈ (run.loops index).dispatcher.cached.map CachedWorker.name) := by
  have caches := run_preserves CachesCoherent caches_step caches_init ran
  refine ⟨fun offer member => ?_, fun index load ready name due kept => ?_⟩
  · obtain ⟨attached, alive⟩ := caches.offered offer member
    refine ⟨alive, fun inbox listed removed same => alive ?_⟩
    rwa [← caches.tracked.channels.separate inbox listed offer.worker attached same]
  · obtain ⟨spawned, found⟩ := caches.spawned index (by rw [ready]; nofun)
    have coherent := caches.coherent found
    rw [ready] at coherent
    have covered := coherent.reading.2 name due kept
    rwa [cacheOf, map_map] at covered

/-- Two workers are created; the dispatcher reads the names, the first worker is
deleted in between, the cache is filled and used, and a second iteration begins. -/
def deletedWhileReading : List RouterEvent :=
  List.flatten
    [[.register "orders" (.ok 0), .createWorker { topic := "orders", name := "first" }],
      List.replicate 8 (.advance 0),
      [.createWorker { topic := "orders", name := "second" }],
      List.replicate 7 (.advance 1),
      [.load 0, .readNames 0, .delWorker "first", .advance 2, .advance 2, .readInboxes 0],
      [.act 0 (.new "1" 0 "orders" [] .standard none) true, .advance 2, .advance 2, .advance 2],
      [.load 0, .readNames 0, .readInboxes 0]]

theorem deletedWhileReading_coherent :
    ∃ run ∈ Foundations.run (RouterRun.step none) {} deletedWhileReading,
      (run.loops 0).phase = .ready ⟨["first"], ["second", "first"]⟩ ∧ run.doomed = ["first"] ∧
        "second" ∈ (run.loops 0).dispatcher.cached.map CachedWorker.name := by
  have reached : ∃ run ∈ Foundations.run (RouterRun.step none) {} deletedWhileReading,
      (run.loops 0).phase = .ready ⟨["first"], ["second", "first"]⟩ ∧ run.doomed = ["first"] := by decide +kernel
  obtain ⟨run, ran, ready, doomed⟩ := reached
  refine ⟨run, ran, ready, doomed, ?_⟩
  exact (dispatcher_caches_coherent ran).2 0 _ ready "second" (by decide) (by rw [doomed]; decide)

end EventBase.Proofs.CacheCoherence
