import EventBase.Proofs.JourneySteps

/-! How often the handler of a worker that always refuses runs. The counter of tries
is raised by retries and by relays, and compared after it was raised. -/

namespace EventBase.Proofs.RetryBudget
open Foundations TaskLogic Accepted StatusReports DeadLetter Disposition DispatcherConservation JourneySteps Dispatcher Worker List Option

/-- Dispatchers have a worker for the message, calls are accepted, and the handler
leaves the message as it is and refuses it with this budget, at once or later. A
broadcast copy is refused at once: a delayed one is sent anew to every worker. -/
def Refusing (topic : String) (maxRetries : UInt32) (journey : Journey) : JourneyEvent → Prop
  | .dispatch index node workers _ => (∀ worker ∈ workers, worker.topic = topic) ∧ workers ≠ [] ∧
      ∀ msg target, journey.places[index]? = some (.queued msg) → msg.toWorker = some target →
        ∃ worker ∈ workers, resolves node target worker.name = true
  | .fetch _ env => Calm topic env
  | .process index env run => ∀ worker msg, journey.places[index]? = some (.handed worker msg) →
      Calm topic env ∧ run.message = msg ∧ ∃ retryAfter, worker.status run = .noAck retryAfter maxRetries ∧
        (msg.deliveryMode = .broadcast → retryAfter = none)
  | .recv .. | .receive .. => False

def budget (maxRetries attempts : UInt32) : Nat := maxRetries.toNat - (attempts + 1).toNat + 1

theorem budget_spent {maxRetries attempts} (spent : maxRetries ≤ attempts + 1) : budget maxRetries attempts = 1 := by
  have least := UInt32.le_iff_toNat_le.mp spent
  rw [budget]
  omega

theorem budget_retry {maxRetries attempts} (left : ¬ maxRetries ≤ attempts + 1) :
    budget maxRetries attempts = budget maxRetries (attempts + 1) + 1 := by
  have more : (attempts + 1).toNat < maxRetries.toNat := by
    rw [← UInt32.lt_iff_toNat_lt, ← UInt32.not_le]
    exact left
  have range := maxRetries.toNat_lt
  have next : (attempts + 1 + 1).toNat = (attempts + 1).toNat + 1 := by
    rw [UInt32.toNat_add (attempts + 1), UInt32.toNat_one]
    omega
  rw [budget, budget, next]
  omega

def runsLeft (topic : String) (maxRetries attempts : UInt32) : Nat :=
  if isSystemTopic topic then 1 else budget maxRetries attempts

/-- A copy of the message, up to its counters, its stamp and its deadline. -/
structure Same (origin copy : EMessage) : Prop where
  id : copy.id = origin.id
  payload : copy.payload = origin.payload
  mode : copy.deliveryMode = origin.deliveryMode

def Held (topic : String) : Place → Prop
  | .handed worker msg => worker.topic = topic ∧ worker.isMisrouted msg = false
  | _ => True

def Exhausted (journey : Journey) : Prop :=
  ∃ handling, journey.handled.getLast? = some handling ∧
    causes handling.effects = [DeadReason.maxRetriesExceeded.toText]

def Shelved (origin : EMessage) (journey : Journey) : Prop :=
  ∃ letter, journey.letters = [letter] ∧ Same origin letter ∧ letter.topic = deadLetterTopic origin.topic ∧ Exhausted journey

/-- A message whose handler will have run `total` times: under way, its letter in the
delay store, its letter gone to the shelf, or done with on a system topic. The letter
of a broadcast is fanned out. -/
inductive Retrying (origin : EMessage) (maxRetries : UInt32) (total : Nat) (journey : Journey) : Prop where
  | underWay (place : Place) (single : journey.places = [place]) (held : Held origin.topic place)
      (same : Same origin (Place.message place)) (topic : (Place.message place).topic = origin.topic)
      (runs : journey.handled.length + runsLeft origin.topic maxRetries (Place.message place).attempts = total)
      (letters : journey.letters = []) (prompt : origin.deliveryMode = .broadcast → ∀ record, place ≠ .delayed record)
  | posted (record : WalRecord) (single : journey.places = [.delayed record]) (same : Same origin record.message)
      (topic : record.message.topic = deadLetterTopic origin.topic) (business : isSystemTopic origin.topic = false)
      (runs : journey.handled.length = total) (letters : journey.letters = []) (exhausted : Exhausted journey)
  | shelved (gone : journey.places = []) (business : isSystemTopic origin.topic = false)
      (runs : journey.handled.length = total) (letter : origin.deliveryMode ≠ .broadcast → Shelved origin journey)
  | silent (gone : journey.places = []) (system : isSystemTopic origin.topic = true) (runs : journey.handled.length = total)
      (letters : journey.letters = [])

def Place.height : Place → Nat
  | .queued _ => 2
  | .handed _ _ => 1
  | .delayed _ => 3

/-- A bound on the events to come: three for every run, and the way of the copy. -/
def height (total : Nat) (journey : Journey) : Nat :=
  3 * (total - journey.handled.length) + (journey.places.map Place.height).sum

section
variable {origin : EMessage} {maxRetries : UInt32} {total : Nat} {journey next : Journey} {event : JourneyEvent}

theorem retrying_start {msg} (waiting : journey.places = [.queued msg]) (fresh : journey.handled = [])
    (empty : journey.letters = []) (maxRetries : UInt32) :
    Retrying msg maxRetries (runsLeft msg.topic maxRetries msg.attempts) journey :=
  .underWay (.queued msg) waiting trivial ⟨rfl, rfl, rfl⟩ rfl (by simp [fresh, Place.message]) empty fun _ _ => by simp

theorem localMatch_of_resolves {node workers target}
    (known : ∃ worker ∈ workers, resolves node target worker.name = true) :
    localMatch node (cacheOfWorkers workers) (some target) ≠ none := by
  obtain ⟨worker, member, resolved⟩ := known
  obtain ⟨channel, inside, rfl⟩ := mem_iff_getElem.mp member
  intro unmatched
  rw [localMatch, bind_some, find?_eq_none] at unmatched
  exact unmatched ⟨workers[channel].name, channel⟩ (mem_mapIdx.mpr ⟨channel, inside, rfl⟩) resolved

theorem dispatch_delivers {msg node workers} (nonempty : workers ≠ [])
    (known : ∀ target, msg.toWorker = some target → ∃ worker ∈ workers, resolves node target worker.name = true)
    (journey : Journey) (index cursor : Nat) :
    ∃ worker ∈ workers, journey.dispatch index msg node workers cursor =
      some (journey.move index [.handed worker { msg with toWorker := some worker.name }]) := by
  have matched (targeted : msg.toWorker.isSome = true) : localMatch node (cacheOfWorkers workers) msg.toWorker ≠ none := by
    obtain ⟨target, named⟩ := isSome_iff_exists.mp targeted
    rw [named]
    exact localMatch_of_resolves (known target named)
  unfold Journey.dispatch
  obtain ⟨_, branch, planned⟩ := plan_cases node (cacheOfWorkers workers) cursor msg
  cases planned with
  | requeue none => exact absurd (by simpa [cacheOfWorkers] using none) nonempty
  | deliver member =>
    obtain ⟨worker, present, same⟩ := mem_cacheOfWorkers member
    refine ⟨worker, mem_of_getElem? present, ?_⟩
    simp only [branch, present, map_some, same]
  | expire expired => exact absurd expired.foreign (matched expired.targeted)
  | relay relayed => exact absurd relayed.foreign (matched relayed.targeted)

theorem Retrying.place (retrying : Retrying origin maxRetries total journey) {index place}
    (found : journey.places[index]? = some place) : journey.places = [place] ∧ index = 0 := by
  cases retrying with
  | underWay only single =>
    obtain ⟨rfl, rfl⟩ := only_place single found
    exact ⟨single, rfl⟩
  | posted record single =>
    obtain ⟨rfl, rfl⟩ := only_place single found
    exact ⟨single, rfl⟩
  | shelved gone => simp [gone] at found
  | silent gone => simp [gone] at found

theorem Retrying.inHand (retrying : Retrying origin maxRetries total journey) {place}
    (single : journey.places = [place]) (stored : ∀ record, place ≠ .delayed record) :
    Held origin.topic place ∧ Same origin (Place.message place) ∧ (Place.message place).topic = origin.topic ∧
      journey.handled.length + runsLeft origin.topic maxRetries (Place.message place).attempts = total ∧
      journey.letters = [] := by
  cases retrying with
  | underWay only alone held same topic runs letters =>
    cases single.symm.trans alone
    exact ⟨held, same, topic, runs, letters⟩
  | posted record alone =>
    cases single.symm.trans alone
    exact absurd rfl (stored record)
  | shelved gone => cases single.symm.trans gone
  | silent gone => cases single.symm.trans gone

theorem Retrying.dispatch (retrying : Retrying origin maxRetries total journey) {index cursor msg node workers}
    (found : journey.places[index]? = some (.queued msg))
    (refusing : Refusing origin.topic maxRetries journey (.dispatch index node workers cursor))
    (dispatched : journey.dispatch index msg node workers cursor = some next) :
    Retrying origin maxRetries total next ∧ height total next < height total journey := by
  obtain ⟨own, nonempty, known⟩ := refusing
  obtain ⟨single, rfl⟩ := retrying.place found
  obtain ⟨-, same, topic, runs, letters⟩ := retrying.inHand single (by simp)
  obtain ⟨worker, member, delivers⟩ := dispatch_delivers nonempty (fun target => known msg target found) journey 0 cursor
  cases dispatched.symm.trans delivers
  have places := move_only single [.handed worker { msg with toWorker := some worker.name }]
  refine ⟨.underWay _ places ⟨own worker member, ?_⟩ ⟨same.id, same.payload, same.mode⟩ topic runs letters (by simp), ?_⟩
  · simp [isMisrouted]
  · rw [height, height, places, single]
    simp [Journey.move, Place.height]

theorem Retrying.fetch (retrying : Retrying origin maxRetries total journey) {index env record}
    (found : journey.places[index]? = some (.delayed record)) (calm : Calm origin.topic env) :
    Retrying origin maxRetries total (journey.emit origin.topic index (deliverDelayed env record).outcome.1) ∧
      height total (journey.emit origin.topic index (deliverDelayed env record).outcome.1) < height total journey := by
  obtain ⟨single, rfl⟩ := retrying.place found
  cases retrying with
  | underWay place alone held same topic runs letters prompt =>
    cases single.symm.trans alone
    have own : record.message.topic = origin.topic := topic
    have mode : record.message.deliveryMode ≠ .broadcast := by
      intro fanned
      exact prompt (same.mode ▸ fanned) record rfl
    have sent := deliverDelayed_business calm.sends (fun table known => own ▸ (calm.routes table known).1) mode
    obtain ⟨places, sentOn⟩ := emit_only origin.topic single sent
    have lands : arrival origin.topic (.publish { record.message with deliverAt := none }) =
        some (.queued { record.message with deliverAt := none }) := if_pos own
    have stays : departure origin.topic (.publish { record.message with deliverAt := none }) = none := if_pos own
    rw [filterMap_cons_some lands, filterMap_nil] at places
    rw [filterMap_cons_none stays, filterMap_nil, letters] at sentOn
    refine ⟨.underWay _ places trivial ⟨same.id, same.payload, same.mode⟩ own runs sentOn (by simp), ?_⟩
    rw [height, height, places, single]
    simp [Journey.emit, Journey.move, Place.height]
  | posted stored alone same topic business runs letters exhausted =>
    cases single.symm.trans alone
    have passes : (deliverDelayed env record).outcome.1.filterMap (arrival origin.topic) = [] :=
      deliverDelayed_passes (topic ▸ deadLetterTopic_ne origin.topic)
    have places : (journey.emit origin.topic 0 (deliverDelayed env record).outcome.1).places = [] := by
      rw [Journey.emit, passes]
      exact move_only single []
    refine ⟨.shelved places business runs fun unicast => ?_, ?_⟩
    · have mode : record.message.deliveryMode ≠ .broadcast := by
        rw [same.mode]
        exact unicast
      have sent := deliverDelayed_business calm.sends (fun table known => topic ▸ (calm.routes table known).2.1) mode
      have departs : departure origin.topic (.publish { record.message with deliverAt := none }) =
          some { record.message with deliverAt := none } := if_neg (topic ▸ deadLetterTopic_ne origin.topic)
      obtain ⟨-, sentOn⟩ := emit_only origin.topic single sent
      rw [filterMap_cons_some departs, filterMap_nil, letters] at sentOn
      exact ⟨_, sentOn, ⟨same.id, same.payload, same.mode⟩, topic, exhausted⟩
    · rw [height, height, places, single]
      simp [Journey.emit, Journey.move, Place.height]
  | shelved gone => cases single.symm.trans gone
  | silent gone => cases single.symm.trans gone

def called (topic : String) (journey : Journey) (worker : Worker) (env : Env) (run : PipelineRun) : Journey :=
  let effects := (worker.processMsg env run run.message).outcome.1
  { journey.emit topic 0 effects with handled := journey.handled ++ [⟨worker, run.message, run, effects⟩] }

theorem called_only {topic place worker env run} (single : journey.places = [place]) {left}
    (shown : (worker.processMsg env run run.message).outcome.1.filterMap business = left) :
    (called topic journey worker env run).places = left.filterMap (arrival topic) ∧
      (called topic journey worker env run).letters = journey.letters ++ left.filterMap (departure topic) :=
  emit_only topic single shown

theorem letter_lands (topic : String) (msg : EMessage) :
    (arrival topic (sendsAs (deadLetterTopic topic) (letterOf topic msg)) = none ∧
      departure topic (sendsAs (deadLetterTopic topic) (letterOf topic msg)) = some (letterOf topic msg)) ∨
    (arrival topic (sendsAs (deadLetterTopic topic) (letterOf topic msg)) =
        some (.delayed (WalRecord.fromMsg (letterOf topic msg))) ∧
      departure topic (sendsAs (deadLetterTopic topic) (letterOf topic msg)) = none) := by
  have foreign := deadLetterTopic_ne topic
  cases deadline : msg.deliverAt with
  | none => exact .inl (by simp [sendsAs, letterOf, deadline, arrival, departure, foreign])
  | some time => exact .inr (by simp [sendsAs, letterOf, deadline, arrival, departure])

theorem called_lower {topic worker env run msg} (single : journey.places = [.handed worker msg])
    (left : journey.handled.length < total)
    (near : ((called topic journey worker env run).places.map Place.height).sum ≤ 3) :
    height total (called topic journey worker env run) < height total journey := by
  have counted : (called topic journey worker env run).handled.length = journey.handled.length + 1 := by simp [called]
  have here : (journey.places.map Place.height).sum = 1 := by rw [single]; rfl
  rw [height, height, counted, here]
  omega

theorem Retrying.called_silent (retrying : Retrying origin maxRetries total journey) {env run worker}
    (single : journey.places = [.handed worker run.message]) (system : isSystemTopic origin.topic = true) :
    Retrying origin maxRetries total (called origin.topic journey worker env run) ∧
      height total (called origin.topic journey worker env run) < height total journey := by
  obtain ⟨⟨own, -⟩, -, -, runs, letters⟩ := retrying.inHand single (by simp)
  rw [runsLeft, if_pos system] at runs
  have nothing : (worker.processMsg env run run.message).outcome.1 = [] := processMsg_silent (own ▸ system)
  have places : (called origin.topic journey worker env run).places = [] := by
    simp [called, nothing, Journey.emit, Journey.move, single]
  refine ⟨.silent places system ?_ ?_, called_lower single (by omega) (by simp [places])⟩
  · rw [← runs]
    simp [called]
  · simp [called, nothing, Journey.emit, letters]

theorem Retrying.called_again (retrying : Retrying origin maxRetries total journey) {env run worker}
    (single : journey.places = [.handed worker run.message]) (calm : Calm origin.topic env)
    (business : isSystemTopic origin.topic = false) {retryAfter}
    (answer : worker.status run = .noAck retryAfter maxRetries)
    (prompt : run.message.deliveryMode = .broadcast → retryAfter = none)
    (more : ¬ maxRetries ≤ run.message.attempts + 1) :
    Retrying origin maxRetries total (called origin.topic journey worker env run) ∧
      height total (called origin.topic journey worker env run) < height total journey := by
  obtain ⟨⟨own, -⟩, same, topic, runs, letters⟩ := retrying.inHand single (by simp)
  simp only [Place.message] at same topic runs
  have direct (fanned : run.message.deliveryMode = .broadcast) (copy : EMessage) :
      .publish copy ∉ copies worker (worker.status run) run.message (env.clock 7) := by
    simp [answer, prompt fanned, copies, more]
  have traced := processMsg_trace (calm.reliable own) run.message (by rw [own, business]) direct
    fun _ _ _ _ table known => topic ▸ (calm.routes table known).1
  obtain ⟨effect, place, only, lands, stays, free, copy⟩ := retry_arrives topic more (env.clock 7)
  rw [answer, only] at traced direct
  obtain ⟨places, sentOn⟩ := called_only single traced.business
  rw [filterMap_cons_some lands, filterMap_nil] at places
  rw [filterMap_cons_none stays, filterMap_nil, letters] at sentOn
  have held : Held origin.topic place := by
    cases place with
    | handed worker msg => exact absurd rfl (free worker msg)
    | queued | delayed => trivial
  have tries : (Place.message place).attempts = run.message.attempts + 1 := by rw [copy]; rfl
  rw [runsLeft, if_neg (by simp [business]), budget_retry more] at runs
  refine ⟨.underWay place places held ?_ ?_ ?_ sentOn fun fanned record stored => ?_, called_lower single (by omega) ?_⟩
  · rw [copy]
    exact ⟨same.id, same.payload, same.mode⟩
  · rw [copy]
    exact topic
  · rw [runsLeft, if_neg (by simp [business]), tries, ← runs]
    simp only [called, length_append, length_singleton]
    omega
  · simp only [prompt (same.mode.trans fanned), copies, more, if_false, List.cons.injEq, and_true] at only
    subst only stored
    cases lands
  · rw [places]
    cases place <;> simp [Place.height]

theorem Retrying.called_last (retrying : Retrying origin maxRetries total journey) {env run worker}
    (single : journey.places = [.handed worker run.message]) (calm : Calm origin.topic env)
    (business : isSystemTopic origin.topic = false) {retryAfter}
    (answer : worker.status run = .noAck retryAfter maxRetries) (spent : maxRetries ≤ run.message.attempts + 1) :
    Retrying origin maxRetries total (called origin.topic journey worker env run) ∧
      height total (called origin.topic journey worker env run) < height total journey := by
  obtain ⟨⟨own, -⟩, same, topic, runs, letters⟩ := retrying.inHand single (by simp)
  simp only [Place.message] at same topic runs
  rw [runsLeft, if_neg (by simp [business]), budget_spent spent] at runs
  have counted : (called origin.topic journey worker env run).handled.length = total := by
    rw [← runs]
    simp [called]
  by_cases fanned : run.message.deliveryMode = .broadcast ∧ run.message.deliverAt = none
  · -- The letter of a broadcast copy is fanned out over the workers of the shelf.
    have passes : (worker.processMsg env run run.message).outcome.1.filterMap (arrival origin.topic) = [] := by
      rw [← own]
      exact spent_passes answer spent fanned.2
    have places : (called origin.topic journey worker env run).places = [] := by
      simp only [called, Journey.emit, passes]
      exact move_only single []
    exact ⟨.shelved places business counted fun unicast => absurd (same.mode ▸ fanned.1) unicast,
      called_lower single (by omega) (by simp [places])⟩
  · have direct (mode : run.message.deliveryMode = .broadcast) (copy : EMessage) :
        .publish copy ∉ copies worker (worker.status run) run.message (env.clock 7) := by
      obtain ⟨time, deadline⟩ := ne_none_iff_exists'.mp fun immediate => fanned ⟨mode, immediate⟩
      simp [answer, copies, spent, sendsAs, letterOf, retried, deadline]
    have traced := processMsg_trace (calm.reliable own) run.message (by rw [own, business]) direct
      fun _ _ _ _ table known => topic ▸ (calm.routes table known).1
    rw [answer] at traced
    have exhausted : Exhausted (called origin.topic journey worker env run) := by
      refine ⟨_, getLast?_concat, traced.causes.trans ?_⟩
      simp [reports, verdict, spent, reason]
    have left := traced.business
    simp only [copies, spent, if_true, own] at left
    obtain ⟨places, sentOn⟩ := called_only single left
    rcases letter_lands origin.topic (retried run.message) with ⟨passes, departs⟩ | ⟨lands, stays⟩
    · rw [filterMap_cons_none passes, filterMap_nil] at places
      rw [filterMap_cons_some departs, filterMap_nil, letters] at sentOn
      exact ⟨.shelved places business counted fun _ => ⟨_, sentOn, ⟨same.id, same.payload, same.mode⟩, rfl, exhausted⟩,
        called_lower single (by omega) (by simp [places])⟩
    · rw [filterMap_cons_some lands, filterMap_nil] at places
      rw [filterMap_cons_none stays, filterMap_nil, letters] at sentOn
      exact ⟨.posted _ places ⟨same.id, same.payload, same.mode⟩ rfl business counted sentOn exhausted,
        called_lower single (by omega) (by simp [places, Place.height])⟩

theorem Retrying.step (retrying : Retrying origin maxRetries total journey)
    (refusing : Refusing origin.topic maxRetries journey event) (stepped : journey.step origin.topic event = some next) :
    Retrying origin maxRetries total next ∧ height total next < height total journey := by
  revert stepped refusing
  fun_cases Journey.step origin.topic journey event
  all_goals intro refusing stepped
  all_goals try cases stepped
  · next found => exact retrying.dispatch found refusing stepped
  · cases refusing
  · cases refusing
  · next found => exact retrying.fetch found refusing
  · next env run worker msg found =>
    obtain ⟨calm, rfl, retryAfter, answer, prompt⟩ := refusing worker msg found
    obtain ⟨single, rfl⟩ := retrying.place found
    obtain ⟨⟨-, routed⟩, -⟩ := retrying.inHand single (by simp)
    have shape : journey.process origin.topic 0 worker run.message env run = called origin.topic journey worker env run := by
      simp only [Journey.process, routed, Bool.false_eq_true, if_false, called]
    rw [shape]
    cases business : isSystemTopic origin.topic with
    | true => exact retrying.called_silent single business
    | false =>
      by_cases spent : maxRetries ≤ run.message.attempts + 1
      · exact retrying.called_last single calm business answer spent
      · exact retrying.called_again single calm business answer prompt spent

theorem Retrying.progress (retrying : Retrying origin maxRetries total journey) (busy : journey.places ≠ []) :
    ∃ event next, Refusing origin.topic maxRetries journey event ∧ journey.step origin.topic event = some next := by
  have host : ∃ env, Calm origin.topic env :=
    ⟨{ nodeType := .host, registry := ∅ }, rfl, fun _ _ => rfl, fun _ => rfl, fun _ known => (by cases known), Int.le_refl 0⟩
  obtain ⟨env, calm⟩ := host
  have fetches {record : WalRecord} (single : journey.places = [.delayed record]) :
      ∃ event next, Refusing origin.topic maxRetries journey event ∧ journey.step origin.topic event = some next :=
    ⟨.fetch 0 env, _, calm, by simp only [Journey.step, single, getElem?_cons_zero]; rfl⟩
  cases retrying with
  | underWay place single held =>
    cases place with
    | queued msg =>
      have known (target : String) (named : msg.toWorker = some target) :
          ∃ worker ∈ [({ topic := origin.topic, name := msg.toWorker.getD "w" } : Worker)],
            resolves none target worker.name = true :=
        ⟨_, mem_singleton_self _, by simp [resolves, named]⟩
      obtain ⟨worker, -, delivers⟩ := dispatch_delivers (by simp) known journey 0 0
      obtain ⟨next, stepped⟩ : ∃ next, journey.step origin.topic
          (.dispatch 0 none [{ topic := origin.topic, name := msg.toWorker.getD "w" }] 0) = some next := by
        simp only [Journey.step, single, getElem?_cons_zero]
        exact ⟨_, delivers⟩
      refine ⟨.dispatch 0 none [{ topic := origin.topic, name := msg.toWorker.getD "w" }] 0, next, ⟨?_, by simp, ?_⟩, stepped⟩
      · intro other member
        rw [mem_singleton.mp member]
      · intro other target found
        rw [single] at found
        cases found
        exact known target
    | handed worker msg =>
      refine ⟨.process 0 env { answer := .noAck none maxRetries, message := msg }, _, ?_,
        by simp only [Journey.step, single, getElem?_cons_zero]; rfl⟩
      intro other copy found
      rw [single] at found
      cases found
      exact ⟨calm, rfl, none, by simp [Worker.status], fun _ => rfl⟩
    | delayed record => exact fetches single
  | posted record single => exact fetches single
  | shelved gone => exact absurd gone busy
  | silent gone => exact absurd gone busy

theorem Retrying.ended (retrying : Retrying origin maxRetries total journey) (gone : journey.places = []) :
    journey.handled.length = total ∧
      (isSystemTopic origin.topic = true ∧ journey.letters = [] ∨
        isSystemTopic origin.topic = false ∧ (origin.deliveryMode ≠ .broadcast → Shelved origin journey)) := by
  cases retrying with
  | underWay place single => cases gone.symm.trans single
  | posted record single => cases gone.symm.trans single
  | shelved _ business runs letter => exact ⟨runs, .inr ⟨business, letter⟩⟩
  | silent _ system runs letters => exact ⟨runs, .inl ⟨system, letters⟩⟩

end

/-- However the message is refused, at once or later, its way has an end, it comes
there, and what is asked of the end holds. -/
structure Follows (topic : String) (maxRetries : UInt32) (start : Journey) (good : Journey → Prop) : Prop where
  bounded : ∃ bound, ∀ events journey, Along (Journey.step topic) (Refusing topic maxRetries) start events →
    run (Journey.step topic) start events = some journey → events.length ≤ bound
  continues : ∀ events journey, Along (Journey.step topic) (Refusing topic maxRetries) start events →
    run (Journey.step topic) start events = some journey → journey.places ≠ [] →
      ∃ event next, Refusing topic maxRetries journey event ∧ journey.step topic event = some next
  ends : ∀ events journey, Along (Journey.step topic) (Refusing topic maxRetries) start events →
    run (Journey.step topic) start events = some journey → journey.places = [] → good journey

section
variable {origin : EMessage} {maxRetries : UInt32} {total : Nat} {start : Journey}
  (retrying : Retrying origin maxRetries total start)
include retrying

theorem Retrying.run {events journey}
    (admitted : Along (Journey.step origin.topic) (Refusing origin.topic maxRetries) start events)
    (ran : Foundations.run (Journey.step origin.topic) start events = some journey) :
    Retrying origin maxRetries total journey :=
  run_invariant (Retrying origin maxRetries total) (fun refusing kept stepped => (kept.step refusing stepped).1) admitted
    retrying ran

theorem Retrying.finishes :
    ∃ events journey, Along (Journey.step origin.topic) (Refusing origin.topic maxRetries) start events ∧
    Foundations.run (Journey.step origin.topic) start events = some journey ∧ journey.places = [] :=
  exists_run_to (fun kept refusing stepped => Retrying.step kept refusing stepped)
    (fun _ kept busy => kept.progress busy) retrying

theorem Retrying.follows {good}
    (ends : ∀ journey, Retrying origin maxRetries total journey → journey.places = [] → good journey) :
    Follows origin.topic maxRetries start good where
  bounded := by
    refine ⟨height total start, fun events journey admitted ran => ?_⟩
    have lowered := run_length_le (fun kept refusing stepped => Retrying.step kept refusing stepped) retrying admitted ran
    omega
  continues events journey admitted ran := (retrying.run admitted ran).progress
  ends events journey admitted ran := ends journey (retrying.run admitted ran)

end

private def parcel : EMessage := EMessage.new "m" 0 "parcels" [] .standard none

private def courier : Worker := { topic := "parcels", name := "w" }

private def parcelHost : Env := { nodeType := .host, registry := ∅ }

private def stampedParcel : EMessage := { parcel with toWorker := some "w" }

private def refusedParcel : PipelineRun := { answer := .noAck none 1, message := stampedParcel }

end EventBase.Proofs.RetryBudget
