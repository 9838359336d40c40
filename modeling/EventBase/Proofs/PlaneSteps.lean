import EventBase.Foundations.Run
import EventBase.TopicPlane

/-! Everything a step of the topic plane can do, with what its guards have checked. The
invariants of the plane go by cases on it. -/

namespace EventBase.Proofs.PlaneSteps
open Dispatcher

section
variable (config : PlaneConfig) (plane : Plane)

def planned (copy : Copy) : Plan := (plan config.node plane.dispatcher.cached plane.dispatcher.cursor copy.message).1

def advanced (copy : Copy) : Dispatcher :=
  { plane.dispatcher with
    cursor := (plan config.node plane.dispatcher.cached plane.dispatcher.cursor copy.message).2 }

inductive Step : PlaneEvent → Plane → Prop
  | submit {env msg} :
      Step (.submit env msg)
        (plane.apply config (TopicRouter.send env config.topic msg none none).outcome.1 msg)
  | push {index copy} (found : plane.outbox[index]? = some copy)
      (room : config.hasRoom plane.queue = true) :
      Step (.push index) { plane with outbox := plane.outbox.eraseIdx index, queue := plane.queue ++ [copy] }
  | claim {copy rest} (idle : plane.phase = .idle) (queue : plane.queue = copy :: rest) :
      Step .claim { plane with phase := .claimed copy, queue := rest }
  | reclaim {index copy} (idle : plane.phase = .idle) (found : plane.claims[index]? = some copy) :
      Step (.reclaim index) { plane with phase := .claimed copy, claims := plane.claims.eraseIdx index }
  | loadStale {copy} (phase : plane.phase = .claimed copy)
      (stale : plane.dispatcher.isStale plane.maps.generation = true) :
      Step .loadGeneration { plane with phase := .loaded copy plane.maps.generation }
  | loadCurrent {copy} (phase : plane.phase = .claimed copy)
      (current : plane.dispatcher.isStale plane.maps.generation = false) :
      Step .loadGeneration { plane with phase := .ready copy }
  | readNames {copy generation} (phase : plane.phase = .loaded copy generation) :
      Step .readNames { plane with phase := .named copy generation plane.maps.names }
  | readInboxes {copy generation names}
      (phase : plane.phase = .named copy generation names) :
      Step .readInboxes
        { plane with
          dispatcher := plane.dispatcher.setCache generation (cacheOf names plane.maps.inboxes)
          phase := .ready copy }
  | noWorker {ack send copy} (phase : plane.phase = .ready copy)
      (branch : planned config plane copy = .requeue) :
      Step (.act ack send) { plane with dispatcher := advanced config plane copy, phase := .nacking copy }
  | deliver {ack send copy target msg cell}
      (phase : plane.phase = .ready copy) (branch : planned config plane copy = .deliver target msg)
      (found : plane.cells[target.channel]? = some cell) (accepts : cell.accepts config = true) :
      Step (.act ack send)
        ({ plane with
          dispatcher := advanced config plane copy, phase := .idle, claims := plane.unacked ack copy }.setCell
            target.channel
          { cell with
            inbox := cell.inbox ++ [Copy.mk msg copy.origin]
            accepted := cell.accepted ++ [Copy.mk msg copy.origin] })
  | refuse {ack send copy target msg cell}
      (phase : plane.phase = .ready copy) (branch : planned config plane copy = .deliver target msg)
      (found : plane.cells[target.channel]? = some cell) (refuses : cell.accepts config = false) :
      Step (.act ack send)
        { plane with
          dispatcher := { advanced config plane copy with seenGeneration := none }, phase := .nacking copy }
  | expire {ack send copy} (phase : plane.phase = .ready copy)
      (branch : planned config plane copy = .expire) :
      Step (.act ack send)
        { plane with
          dispatcher := advanced config plane copy, phase := .idle, claims := plane.unacked ack copy
          dropped := plane.dropped ++ [copy] }
  | relay {ack copy msg} (phase : plane.phase = .ready copy)
      (branch : planned config plane copy = .relay msg) :
      Step (.act ack true)
        { plane with
          dispatcher := advanced config plane copy, phase := .sending copy.hop, claims := plane.unacked ack copy }
  | relayFails {ack copy msg} (phase : plane.phase = .ready copy)
      (branch : planned config plane copy = .relay msg) :
      Step (.act ack false)
        { plane with dispatcher := advanced config plane copy, phase := .idle, claims := plane.unacked ack copy }
  | requeue {copy} (phase : plane.phase = .nacking copy) (room : config.hasRoom plane.queue = true) :
      Step (.nack .requeued) { plane with queue := plane.queue ++ [copy], phase := .idle }
  | block {copy} (phase : plane.phase = .nacking copy) (full : config.hasRoom plane.queue = false) :
      Step (.nack .requeued) { plane with phase := .waiting copy }
  | requeueUnreleased {copy} (phase : plane.phase = .nacking copy) :
      Step (.nack .requeuedUnreleased)
        { plane with queue := plane.queue ++ [copy], claims := plane.claims ++ [copy], phase := .idle }
  | nackFails {copy} (phase : plane.phase = .nacking copy) :
      Step (.nack .failed) { plane with claims := plane.claims ++ [copy], phase := .idle }
  | resume {copy} (phase : plane.phase = .waiting copy) (room : config.hasRoom plane.queue = true) :
      Step .resume { plane with queue := plane.queue ++ [copy], phase := .idle }
  | relayed {copy} (phase : plane.phase = .sending copy) (room : config.hasRoom plane.queue = true) :
      Step .resume { plane with queue := plane.queue ++ [copy], phase := .idle }
  | recvResolved {idle sent ack copy rest target}
      (queue : plane.queue = copy :: rest) (shared : config.sharedQueue = true)
      (targeted : copy.message.toWorker = some target) (known : plane.indexed config target = true) :
      Step (.recv idle sent ack)
        { plane with queue := rest, claims := plane.unacked ack copy, outbox := plane.outbox ++ [copy] }
  | recvExpired {idle sent ack copy rest target}
      (queue : plane.queue = copy :: rest) (shared : config.sharedQueue = true)
      (targeted : copy.message.toWorker = some target) (unknown : plane.indexed config target = false)
      (spent : maxTargetedHops ≤ copy.message.attempts) :
      Step (.recv idle sent ack)
        { plane with queue := rest, claims := plane.unacked ack copy, dropped := plane.dropped ++ [copy] }
  | recvRelayed {idle sent ack copy rest target}
      (queue : plane.queue = copy :: rest) (shared : config.sharedQueue = true)
      (targeted : copy.message.toWorker = some target) (unknown : plane.indexed config target = false)
      (budget : ¬ maxTargetedHops ≤ copy.message.attempts) :
      Step (.recv idle sent ack)
        { plane with
          queue := rest, claims := plane.unacked ack copy
          outbox := plane.outbox ++ [if sent then copy.hop else copy] }
  | recvIdle {idle sent ack copy rest} (queue : plane.queue = copy :: rest)
      (shared : config.sharedQueue = true) (untargeted : copy.message.toWorker = none) :
      Step (.recv idle sent ack)
        { plane with queue := rest, claims := plane.unacked ack copy, outbox := plane.outbox ++ [copy] }
  | recvEphemeral {idle sent ack copy rest} (queue : plane.queue = copy :: rest)
      (shared : config.sharedQueue = true) (untargeted : copy.message.toWorker = none) :
      Step (.recv idle sent ack)
        { plane with queue := rest, claims := plane.unacked ack copy, ephemerals := plane.ephemerals ++ [copy] }
  | fetch {now} :
      Step (.fetch now)
        { plane with
          delays := plane.delays.filter (fun copy => !copy.isDue now)
          fetched := plane.fetched ++ plane.delays.filter (Copy.isDue now) }
  | deliverDelayed {env copy rest} (fetched : plane.fetched = copy :: rest) :
      Step (.deliverDelayed env)
        ({ plane with fetched := rest }.apply config
          (EventBase.deliverDelayed env (WalRecord.fromMsg copy.message)).outcome.1 copy.origin)
  | receive {channel cell copy rest} (found : plane.cells[channel]? = some cell)
      (running : cell.stopped = false) (free : cell.hand = none) (inbox : cell.inbox = copy :: rest) :
      Step (.receive channel) (plane.setCell channel { cell with hand := some copy, inbox := rest })
  | giveUp {channel env run cell copy}
      (found : plane.cells[channel]? = some cell) (running : cell.stopped = false) (hand : cell.hand = some copy)
      (misrouted : cell.worker.isMisrouted copy.message = true) :
      Step (.finish channel env run)
        { plane.setCell channel { cell with hand := none } with dropped := plane.dropped ++ [copy] }
  | forward {channel env run cell copy}
      (found : plane.cells[channel]? = some cell) (running : cell.stopped = false) (hand : cell.hand = some copy)
      (misrouted : cell.worker.isMisrouted copy.message = true)
      (routed : Worker.routeTargeted copy.message = some copy.hop.message) :
      Step (.finish channel env run)
        { plane.setCell channel { cell with hand := none } with outbox := plane.outbox ++ [copy.hop] }
  | finish {channel env run cell copy}
      (found : plane.cells[channel]? = some cell) (running : cell.stopped = false) (hand : cell.hand = some copy)
      (addressed : cell.worker.isMisrouted copy.message = false) :
      Step (.finish channel env run)
        { (plane.setCell channel { cell with hand := none, completed := cell.completed ++ [copy] }).apply config
            (cell.worker.processMsg env run copy.message).outcome.1 copy.origin with
          handled := plane.handled ++ [⟨copy.origin, cell.worker.name, cell.worker.status run⟩] }
  | finishEphemeral {index name env run copy}
      (found : plane.ephemerals[index]? = some copy) :
      Step (.finishEphemeral index name env run)
        ({ plane with ephemerals := plane.ephemerals.eraseIdx index }.apply config
          (Worker.processMsg env { topic := config.topic, name := name } run copy.message).outcome.1 copy.origin)
  | create {name timeOut} (fresh : ∀ cell ∈ plane.cells, cell.worker.name ≠ name) :
      Step (.create name timeOut)
        { plane with
          cells := plane.cells ++ [{ worker := { topic := config.topic, name := name, timeOut := timeOut } }]
          maps := { plane.maps with inboxes := plane.maps.inboxes.insert name plane.cells.length } }
  | register {channel cell} (found : plane.cells[channel]? = some cell)
      (unregistered : cell.registered = false) (alive : cell.aborted = false) :
      Step (.register channel)
        { plane.setCell channel { cell with registered := true } with
          maps := { plane.maps with
            names := plane.maps.names ++ [cell.worker.name], generation := plane.maps.generation + 1 } }
  | notify {channel cell} (found : plane.cells[channel]? = some cell) :
      Step (.notify channel) (plane.setCell channel { cell with notified := true })
  | exit {channel cell} (found : plane.cells[channel]? = some cell) (notified : cell.notified = true)
      (free : cell.hand = none) :
      Step (.exit channel) (plane.setCell channel { cell with stopped := true })
  | unregister {channel cell} (found : plane.cells[channel]? = some cell)
      (registered : cell.registered = true) :
      Step (.unregister channel) (plane.setCell channel { cell with registered := false, aborted := true })
  | unmap {channel cell} (found : plane.cells[channel]? = some cell) (aborted : cell.aborted = true) :
      Step (.unmap channel)
        { plane with maps := { plane.maps with inboxes := plane.maps.inboxes.erase cell.worker.name } }
  | forget {channel cell} (found : plane.cells[channel]? = some cell) (aborted : cell.aborted = true)
      (unmapped : cell.worker.name ∉ plane.maps.inboxes) :
      Step (.forget channel)
        { plane with
          maps := { plane.maps with
            names := plane.maps.names.filter (fun name => name ≠ cell.worker.name)
            generation := plane.maps.generation + 1 } }
  | stop {channel cell} (found : plane.cells[channel]? = some cell) (aborted : cell.aborted = true) :
      Step (.stop channel) (plane.setCell channel { cell with stopped := true, hand := none })
  | close {channel cell} (found : plane.cells[channel]? = some cell) (aborted : cell.aborted = true)
      (stopped : cell.stopped = true) :
      Step (.close channel) (plane.setCell channel { cell with closed := true, inbox := [] })

end

section
variable {config : PlaneConfig} {plane next : Plane}

private theorem act_sound {copy ack send} (phase : plane.phase = .ready copy)
    (stepped : plane.act config copy ack send = some next) : Step config plane (.act ack send) next := by
  simp only [Plane.act] at stepped
  split at stepped
  · next branch =>
    cases stepped
    exact .noWorker phase branch
  · next branch =>
    split at stepped
    · next found =>
      split at stepped
      · next accepts =>
        cases stepped
        exact .deliver phase branch found accepts
      · next refuses =>
        cases stepped
        exact .refuse phase branch found (by simpa using refuses)
    · cases stepped
  · next branch =>
    cases stepped
    exact .expire phase branch
  · next branch =>
    cases stepped
    cases send with
    | true => exact .relay phase branch
    | false => exact .relayFails phase branch

private theorem nack_sound {copy outcome} (phase : plane.phase = .nacking copy) :
    Step config plane (.nack outcome) (plane.nack config copy outcome) := by
  cases outcome with
  | requeued =>
    cases room : config.hasRoom plane.queue with
    | true =>
      simp only [Plane.nack, room, if_true]
      exact .requeue phase room
    | false =>
      simp only [Plane.nack, room, Bool.false_eq_true, if_false]
      exact .block phase room
  | requeuedUnreleased => exact .requeueUnreleased phase
  | failed => exact .nackFails phase

private theorem recv_sound {copy rest idle sent ack} (queue : plane.queue = copy :: rest)
    (shared : config.sharedQueue = true) :
    Step config plane (.recv idle sent ack) (plane.recv config copy rest idle sent ack) := by
  simp only [Plane.recv]
  split
  · next targeted =>
    split
    · next known => exact .recvResolved queue shared targeted known
    · next unknown =>
      split
      · next spent =>
        have absent := Bool.eq_false_iff.mpr unknown
        exact .recvExpired queue shared targeted absent spent
      · next budget =>
        have absent := Bool.eq_false_iff.mpr unknown
        exact .recvRelayed queue shared targeted absent budget
  · next untargeted =>
    split
    · exact .recvIdle queue shared untargeted
    · exact .recvEphemeral queue shared untargeted

theorem routeTargeted_some {copy : Copy} {msg} (routed : Worker.routeTargeted copy.message = some msg) :
    Worker.routeTargeted copy.message = some copy.hop.message := by
  unfold Worker.routeTargeted at routed ⊢
  split at routed
  · cases routed
  · next budget => rw [if_neg budget]; rfl

private theorem finish_sound {channel env run} {cell : Cell} {copy} (found : plane.cells[channel]? = some cell)
    (running : cell.stopped = false) (hand : cell.hand = some copy) :
    Step config plane (.finish channel env run) (plane.finish config channel cell copy env run) := by
  simp only [Plane.finish]
  split
  · next misrouted =>
    split
    · exact .giveUp found running hand misrouted
    · next routed =>
      exact .forward found running hand misrouted (routeTargeted_some routed)
  · next addressed => exact .finish found running hand (by simpa using addressed)

theorem step_sound {event} (stepped : plane.step config event = some next) :
    Step config plane event next := by
  revert stepped
  fun_cases Plane.step config plane event
  all_goals intro stepped
  -- only the dispatch loop's own branches still compute the next plane
  all_goals try cases stepped
  · exact .submit
  · next found room => exact .push found room
  · next queue idle => exact .claim idle queue
  · next found idle => exact .reclaim idle found
  · next phase stale => exact .loadStale phase stale
  · next phase current => exact .loadCurrent phase (by simpa using current)
  · next phase => exact .readNames phase
  · next phase => exact .readInboxes phase
  · next phase => exact act_sound phase stepped
  · next phase => exact nack_sound phase
  · next phase room => exact .resume phase room
  · next phase room => exact .relayed phase room
  · next queue shared => exact recv_sound queue shared
  · exact .fetch
  · next fetched => exact .deliverDelayed fetched
  · next found _ _ inbox free running =>
    exact .receive found running free inbox
  · next found _ hand running => exact finish_sound found running hand
  · next found => exact .finishEphemeral found
  · next fresh => exact .create (by simpa using fresh)
  · next found usable =>
    simp only [Bool.or_eq_true, not_or, Bool.not_eq_true] at usable
    exact .register found usable.1 usable.2
  · next found => exact .notify found
  · next found leaving =>
    simp only [Bool.and_eq_true, Option.isNone_iff_eq_none] at leaving
    exact .exit found leaving.1 leaving.2
  · next found registered => exact .unregister found registered
  · next found aborted => exact .unmap found aborted
  · next found ready =>
    simp only [Bool.and_eq_true, decide_eq_true_eq] at ready
    exact .forget found ready.1 ready.2
  · next found aborted => exact .stop found aborted
  · next found ended =>
    simp only [Bool.and_eq_true] at ended
    exact .close found ended.1 ended.2

end

end EventBase.Proofs.PlaneSteps
