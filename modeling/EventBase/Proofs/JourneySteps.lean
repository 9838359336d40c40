import EventBase.Foundations.Descent
import EventBase.Proofs.DispatcherConservation
import EventBase.Proofs.Disposition
import EventBase.Redelivery

/-! What one step can do to the copies of a message on its way, and what one handler call
leaves of it when nothing is refused. -/

namespace EventBase.Proofs.JourneySteps
open Foundations TaskLogic Accepted StatusReports DeadLetter Disposition DispatcherConservation Dispatcher List

def Place.message : Place → EMessage
  | .queued msg | .handed _ msg => msg
  | .delayed record => record.message

structure Calm (topic : String) (env : Env) : Prop where
  wal : env.walAvailable = true
  sends : ∀ call mode, env.sends call mode = none
  schedules : ∀ call, env.schedules call = none
  routes : ∀ table, env.routes = some table →
    topic ∈ table ∧ Worker.deadLetterTopic topic ∈ table ∧ systemTopicWalSync ∈ table
  clock : ClockAdvances env

theorem Calm.reliable {topic env} (calm : Calm topic env) {worker} (own : worker.topic = topic) :
    Reliable env worker where
  wal := calm.wal
  sends := calm.sends
  schedules := calm.schedules
  reports table found := (calm.routes table found).2.2
  letters table found := by
    rw [own]
    exact (calm.routes table found).2.1
  clock := calm.clock

section
variable {topic : String} {journey next : Journey} {event : JourneyEvent} {index : Nat}

inductive Passed (journey : Journey) (index : Nat) (msg : EMessage) : JourneyEvent → Journey → Prop where
  | kept {event : JourneyEvent} : Passed journey index msg event journey
  | lost {event : JourneyEvent} : Passed journey index msg event (journey.move index [])
  | relayed {event : JourneyEvent} (targeted : msg.toWorker.isSome = true) (hops : ¬ maxTargetedHops ≤ msg.attempts) :
    Passed journey index msg event (journey.relay index msg)
  | delivered {node workers cursor worker} (member : worker ∈ workers) :
    Passed journey index msg (.dispatch index node workers cursor)
      (journey.move index [.handed worker { msg with toWorker := some worker.name }])
  | spawned {ephemeral} (untargeted : msg.toWorker = none) :
    Passed journey index msg (.recv index false ephemeral) (journey.move index [.handed ephemeral msg])
  | received {worker} : Passed journey index msg (.receive index worker) (journey.move index [.handed worker msg])

theorem mem_cacheOfWorkers {workers target} (member : target ∈ cacheOfWorkers workers) :
    ∃ worker, workers[target.channel]? = some worker ∧ worker.name = target.name := by
  obtain ⟨channel, inside, rfl⟩ := mem_mapIdx.mp member
  exact ⟨workers[channel], getElem?_eq_getElem inside, rfl⟩

theorem dispatch_passed {msg node workers cursor}
    (dispatched : journey.dispatch index msg node workers cursor = some next) :
    Passed journey index msg (.dispatch index node workers cursor) next := by
  unfold Journey.dispatch at dispatched
  obtain ⟨_, branch, planned⟩ := plan_cases node (cacheOfWorkers workers) cursor msg
  rw [branch] at dispatched
  cases planned with
  | requeue =>
    cases dispatched
    exact .kept
  | deliver member =>
    obtain ⟨worker, present, same⟩ := mem_cacheOfWorkers member
    simp only [present, Option.map_some, Option.some.injEq] at dispatched
    subst dispatched
    rw [← same]
    exact .delivered (mem_of_getElem? present)
  | expire =>
    cases dispatched
    exact .lost
  | relay relayed =>
    cases dispatched
    exact .relayed relayed.targeted relayed.hops

theorem recv_passed (msg : EMessage) (found : Bool) (ephemeral : Worker) :
    Passed journey index msg (.recv index found ephemeral) (journey.recv index msg found ephemeral) := by
  unfold Journey.recv
  cases found with
  | true => exact .kept
  | false =>
    rw [if_neg (by simp)]
    split
    · next targeted =>
      split
      · exact .lost
      · next hops => exact .relayed targeted hops
    · next untargeted => exact .spawned (by simpa using untargeted)

inductive Moves (topic : String) (journey : Journey) : JourneyEvent → Journey → Prop where
  | pass {index msg} {event : JourneyEvent} {next : Journey}
      (place : journey.places[index]? = some (.queued msg)) (passed : Passed journey index msg event next) :
    Moves topic journey event next
  | fetch {index env record} (place : journey.places[index]? = some (.delayed record)) :
    Moves topic journey (.fetch index env) (journey.emit topic index (deliverDelayed env record).outcome.1)
  | give {index env run worker msg}
      (place : journey.places[index]? = some (.handed worker msg)) (misrouted : worker.isMisrouted msg = true)
      (hops : maxTargetedHops ≤ msg.attempts) :
    Moves topic journey (.process index env run) (journey.move index [])
  | route {index env run worker msg}
      (place : journey.places[index]? = some (.handed worker msg)) (misrouted : worker.isMisrouted msg = true)
      (hops : ¬ maxTargetedHops ≤ msg.attempts) :
    Moves topic journey (.process index env run) (journey.relay index msg)
  | handle {index env run worker msg}
      (place : journey.places[index]? = some (.handed worker msg)) (routed : worker.isMisrouted msg = false) :
    Moves topic journey (.process index env run)
      { journey.emit topic index (worker.processMsg env run msg).outcome.1 with
        handled := journey.handled ++ [⟨worker, msg, run, (worker.processMsg env run msg).outcome.1⟩] }

theorem moves_of_step (stepped : journey.step topic event = some next) : Moves topic journey event next := by
  revert stepped
  fun_cases Journey.step topic journey event
  all_goals intro stepped
  all_goals try cases stepped
  · next place => exact .pass place (dispatch_passed stepped)
  · next found ephemeral msg place => exact .pass place (recv_passed msg found ephemeral)
  · next place => exact .pass place .received
  · next place => exact .fetch place
  · next msg place =>
    unfold Journey.process
    split
    · next misrouted =>
      by_cases hops : maxTargetedHops ≤ msg.attempts
      · simp only [Worker.routeTargeted, hops, if_true]
        exact .give place misrouted hops
      · simp only [Worker.routeTargeted, hops, if_false]
        exact .route place misrouted hops
    · next routed => exact .handle place (by simpa using routed)

theorem only_place {place other} (single : journey.places = [place]) (found : journey.places[index]? = some other) :
    index = 0 ∧ other = place := by
  rw [single] at found
  cases index with
  | zero => exact ⟨rfl, (Option.some.inj found).symm⟩
  | succ index => simp at found

theorem move_only {place} (single : journey.places = [place]) (places : List Place) :
    (journey.move 0 places).places = places := by
  simp [Journey.move, single]

end

section
variable {effects : List Effect}

theorem filterMap_business {β : Type} (view : Effect → Option β) (hidden : ∀ effect, business effect = none → view effect = none) :
    effects.filterMap view = (effects.filterMap business).filterMap view := by
  rw [filterMap_filterMap]
  refine filterMap_congr fun effect _ => ?_
  cases effect with
  | audit record => exact hidden _ rfl
  | walSync sync => exact hidden _ rfl
  | publish | requeue | schedule => rfl

theorem arrivals_of_business (topic : String) :
    effects.filterMap (arrival topic) = (effects.filterMap business).filterMap (arrival topic) :=
  filterMap_business _ fun effect report => by cases effect <;> first | rfl | cases report

theorem departures_of_business (topic : String) :
    effects.filterMap (departure topic) = (effects.filterMap business).filterMap (departure topic) :=
  filterMap_business _ fun effect report => by cases effect <;> first | rfl | cases report

end

theorem emit_only (topic : String) {journey : Journey} {place} (single : journey.places = [place])
    {effects left : List Effect} (shown : effects.filterMap business = left) :
    (journey.emit topic 0 effects).places = left.filterMap (arrival topic) ∧
      (journey.emit topic 0 effects).letters = journey.letters ++ left.filterMap (departure topic) := by
  rw [Journey.emit, arrivals_of_business, departures_of_business, shown]
  exact ⟨move_only single _, rfl⟩

theorem deliverDelayed_business {env record} (sends : ∀ call mode, env.sends call mode = none)
    (routes : ∀ table, env.routes = some table → record.message.topic ∈ table)
    (mode : record.message.deliveryMode ≠ .broadcast) :
    (deliverDelayed env record).outcome.1.filterMap business = [.publish { record.message with deliverAt := none }] := by
  have sent : Posts business
      (TopicRouter.send env record.message.topic { record.message with deliverAt := none } none none) 0
      [.publish { record.message with deliverAt := none }] := by
    unfold TopicRouter.send
    rw [if_neg (by simp), if_neg mode]
    exact routed_posts business sends routes (sendMode env none none) (.publish { record.message with deliverAt := none })
  exact (sent.ends rfl).ignore.outcome.symm

theorem deliverDelayed_passes {topic env record} (foreign : record.message.topic ≠ topic) :
    (deliverDelayed env record).outcome.1.filterMap (arrival topic) = [] := by
  have passes : EmitsOnly (fun effect => arrival topic effect = none) (deliverDelayed env record) := by
    refine EmitsOnly.ignore (.send env (by simp) (fun _ _ info _ => ?_) fun _ _ => ?_)
    · exact if_neg foreign
    · exact if_neg foreign
  exact filterMap_eq_nil_iff.mpr passes.outcome

theorem spent_passes {env} {worker : Worker} {run : PipelineRun} {msg retryAfter maxRetries}
    (answer : worker.status run = .noAck retryAfter maxRetries) (spent : maxRetries ≤ run.message.attempts + 1)
    (immediate : run.message.deliverAt = none) :
    (worker.processMsg env run msg).outcome.1.filterMap (arrival worker.topic) = [] := by
  have foreign := deadLetterTopic_ne worker.topic
  have passes : EmitsOnly (fun effect => arrival worker.topic effect = none) (worker.processMsg env run msg) := by
    refine EmitsOnly.processMsg env worker (fun _ => rfl) (fun _ => rfl) fun _ processTime => ?_
    rw [answer]
    refine (EmitsOnly.syncStatus env worker fun _ => rfl).bind fun _ => .cond (fun _ => ?_) fun left => absurd spent left
    refine (EmitsOnly.syncStatus env worker fun _ => rfl).bind fun _ => EmitsOnly.bind ?_ fun _ => ?_
    · refine .send env (fun due => ?_) (fun _ _ info _ => if_neg foreign) fun _ _ => if_neg foreign
      simp [immediate] at due
    · exact .cond (fun _ => EmitsOnly.auditMsg env worker fun _ => rfl) fun _ => .pure ()
  exact filterMap_eq_nil_iff.mpr passes.outcome

theorem retry_arrives {topic worker msg} (own : msg.topic = topic) {retryAfter maxRetries}
    (budget : ¬ maxRetries ≤ msg.attempts + 1) (time : SystemTime) :
    ∃ effect place, copies worker (.noAck retryAfter maxRetries) msg time = [effect] ∧ arrival topic effect = some place ∧
      departure topic effect = none ∧ (∀ worker msg, place ≠ .handed worker msg) ∧
      Place.message place = { retried msg with deliverAt := (Place.message place).deliverAt } := by
  simp only [copies, budget, if_false]
  cases retryAfter with
  | none => exact ⟨_, .queued (retried msg), rfl, rfl, rfl, by simp, rfl⟩
  | some delay =>
    cases late : time.checkedAdd delay with
    | none =>
      refine ⟨_, .queued { retried msg with deliverAt := none, topic := msg.topic }, rfl, ?_, ?_, by simp, rfl⟩
      · simp [sendsAs, late, arrival, own]
      · simp [sendsAs, late, departure, own]
    | some deliverAt =>
      refine ⟨_, .delayed (WalRecord.fromMsg { retried msg with deliverAt := some deliverAt }), rfl, ?_, ?_, by simp, rfl⟩
      · simp [sendsAs, late, arrival]
      · simp [sendsAs, late, departure]

end EventBase.Proofs.JourneySteps
