import EventBase.Proofs.PlaneCoherence
import EventBase.Proofs.TaskTraffic

/-! Properties of the messages on their way: every step moves a message, changes
its hop count or its stamp, or lets a task add new ones. -/

namespace EventBase.Proofs.PlaneTraffic
open PlaneSteps PlaneCoherence TaskTraffic List

variable {copy : Copy} {property : Copy → Prop} {channel : Nat} {cell : Cell}

/-- The messages in motion satisfy `moving`, those in the delay store or fetched
from it `delayed`, and those handed to an ephemeral worker `spawned`. -/
structure Throughout (moving delayed spawned : Copy → Prop) (plane : Plane) : Prop where
  outbox : ∀ copy ∈ plane.outbox, moving copy
  queue : ∀ copy ∈ plane.queue, moving copy
  claims : ∀ copy ∈ plane.claims, moving copy
  phase : ∀ copy ∈ plane.phase.copies, moving copy
  cells : ∀ cell ∈ plane.cells, ∀ copy ∈ cell.copies, moving copy
  delays : ∀ copy ∈ plane.delays, delayed copy
  fetched : ∀ copy ∈ plane.fetched, delayed copy
  ephemerals : ∀ copy ∈ plane.ephemerals, spawned copy

/-- The task whose effects a step applies, and the message they descend from. -/
inductive Emission (config : PlaneConfig) (plane : Plane) : PlaneEvent → EMessage → List Effect → Prop
  | submit {env msg} :
      Emission config plane (.submit env msg) msg (TopicRouter.send env config.topic msg none none).outcome.1
  | deliverDelayed {env copy rest} (fetched : plane.fetched = copy :: rest) :
      Emission config plane (.deliverDelayed env) copy.origin
        (EventBase.deliverDelayed env (WalRecord.fromMsg copy.message)).outcome.1
  | finish {channel env run cell copy}
      (found : plane.cells[channel]? = some cell) (hand : cell.hand = some copy) :
      Emission config plane (.finish channel env run) copy.origin (cell.worker.processMsg env run copy.message).outcome.1
  | finishEphemeral {index name env run copy}
      (found : plane.ephemerals[index]? = some copy) :
      Emission config plane (.finishEphemeral index name env run) copy.origin
        (Worker.processMsg env { topic := config.topic, name := name } run copy.message).outcome.1

inductive Hops (config : PlaneConfig) (plane : Plane) (copy : Copy) : Prop
  | relay (msg : EMessage) (branch : planned config plane copy = .relay msg)
  | recv (target : String) (targeted : copy.message.toWorker = some target)
      (unknown : plane.indexed config target = false) (budget : ¬ maxTargetedHops ≤ copy.message.attempts)
  | forward (worker : Worker) (misrouted : worker.isMisrouted copy.message = true)
      (routed : Worker.routeTargeted copy.message = some copy.hop.message)

theorem mem_insertDelays {copies delays : List Copy} (member : copy ∈ copies.foldl insertDelay delays) :
    copy ∈ copies ∨ copy ∈ delays := by
  induction copies generalizing delays with
  | nil => exact .inr member
  | cons first rest ih =>
    rcases ih member with later | stored
    · exact .inl (mem_cons_of_mem _ later)
    · rcases mem_cons.mp stored with rfl | old
      · exact .inl mem_cons_self
      · exact .inr (mem_filter.mp old).1

private theorem appended {held} (all : ∀ one ∈ held, property one) (holds : property copy) :
    ∀ one ∈ held ++ [copy], property one :=
  forall_mem_append.mpr ⟨all, forall_mem_singleton.mpr holds⟩

private theorem at_rest : ∀ one ∈ Phase.idle.copies, property one := by
  simp [Phase.copies]

theorem throughout_of_live {plane} (holds : ∀ copy ∈ plane.live, property copy) :
    Throughout property property property plane := by
  simp only [Plane.live, mem_append, mem_flatMap] at holds
  constructor <;> grind

theorem Throughout.live {plane} (every : Throughout property property property plane) :
    ∀ copy ∈ plane.live, property copy := by
  intro copy member
  simp only [Plane.live, mem_append, mem_flatMap] at member
  rcases member with ((((((outbox | queue) | claims) | delays) | fetched) | ephemerals) | phase) | ⟨cell, listed, held⟩
  · exact every.outbox copy outbox
  · exact every.queue copy queue
  · exact every.claims copy claims
  · exact every.delays copy delays
  · exact every.fetched copy fetched
  · exact every.ephemerals copy ephemerals
  · exact every.phase copy phase
  · exact every.cells cell listed copy held

section
variable {moving delayed spawned : Copy → Prop} {config : PlaneConfig} {plane next : Plane} {event : PlaneEvent}
  (every : Throughout moving delayed spawned plane)
include every

theorem Throughout.imp {moving' delayed' spawned'} (moves : ∀ copy, moving copy → moving' copy)
    (delays : ∀ copy, delayed copy → delayed' copy) (spawns : ∀ copy, spawned copy → spawned' copy) :
    Throughout moving' delayed' spawned' plane where
  outbox copy member := moves copy (every.outbox copy member)
  queue copy member := moves copy (every.queue copy member)
  claims copy member := moves copy (every.claims copy member)
  phase copy member := moves copy (every.phase copy member)
  cells cell listed copy member := moves copy (every.cells cell listed copy member)
  delays copy member := delays copy (every.delays copy member)
  fetched copy member := delays copy (every.fetched copy member)
  ephemerals copy member := spawns copy (every.ephemerals copy member)

theorem Throughout.inPhase {phase} (reached : plane.phase = phase) (holds : phase.copies = [copy]) :
    moving copy := every.phase copy (by simp [reached, holds])

theorem Throughout.unacked {ack} (moves : moving copy) :
    ∀ held ∈ plane.unacked ack copy, moving held := by
  intro held member
  unfold Plane.unacked at member
  split at member
  · exact every.claims held member
  · exact appended every.claims moves held member

theorem Throughout.apply {effects origin} (lands : ∀ effect ∈ effects,
      Lands config.topic (fun msg => moving ⟨msg, origin⟩) (fun msg => delayed ⟨msg, origin⟩) effect) :
    Throughout moving delayed spawned (plane.apply config effects origin) := by
  refine { every with outbox := ?_, delays := ?_ }
  · intro copy member
    rcases mem_append.mp member with old | new
    · exact every.outbox copy old
    · obtain ⟨msg, sent, rfl⟩ := mem_map.mp new
      obtain ⟨effect, emitted, found⟩ := mem_filterMap.mp sent
      exact (lands effect emitted).outgoing msg found
  · intro copy member
    rcases mem_insertDelays member with new | old
    · obtain ⟨msg, sent, rfl⟩ := mem_map.mp new
      obtain ⟨effect, emitted, found⟩ := mem_filterMap.mp sent
      exact (lands effect emitted).scheduled msg found
    · exact every.delays copy old

theorem Throughout.inCell (found : plane.cells[channel]? = some cell) :
    ∀ copy ∈ cell.copies, moving copy := every.cells cell (mem_of_getElem? found)

theorem Throughout.inHand (found : plane.cells[channel]? = some cell)
    (hand : cell.hand = some copy) : moving copy :=
  every.inCell found copy (by simp [Cell.copies, hand])

theorem Throughout.setCell (updated : Cell) (found : plane.cells[channel]? = some cell)
    (moves : ∀ copy ∈ updated.copies, copy ∈ cell.copies ∨ moving copy) :
    Throughout moving delayed spawned (plane.setCell channel updated) := by
  refine { every with cells := ?_ }
  intro one member
  rcases mem_or_eq_of_mem_set member with old | rfl
  · exact every.cells one old
  · exact fun copy held => (moves copy held).elim (every.inCell found copy) id

theorem Throughout.keepCell (updated : Cell) (found : plane.cells[channel]? = some cell)
    (fewer : ∀ copy ∈ updated.copies, copy ∈ cell.copies) :
    Throughout moving delayed spawned (plane.setCell channel updated) :=
  every.setCell updated found fun copy held => .inl (fewer copy held)

theorem Throughout.step (stepped : Step config plane event next)
    (hops : ∀ copy, Hops config plane copy → moving copy → moving copy.hop)
    (delivers : ∀ ack send copy target msg, event = .act ack send → plane.phase = .ready copy →
      planned config plane copy = .deliver target msg → moving ⟨msg, copy.origin⟩)
    (spawns : ∀ copy, moving copy → copy.message.toWorker = none → spawned copy)
    (lands : ∀ origin effects, Emission config plane event origin effects → ∀ effect ∈ effects,
      Lands config.topic (fun msg => moving ⟨msg, origin⟩) (fun msg => delayed ⟨msg, origin⟩) effect) :
    Throughout moving delayed spawned next := by
  cases stepped with
  | @submit env msg => exact every.apply (lands _ _ .submit)
  | @push _ copy found =>
    exact { every with
      outbox := fun held member => every.outbox held (mem_of_mem_eraseIdx member)
      queue := appended every.queue (every.outbox copy (mem_of_getElem? found)) }
  | @claim copy _ idle queue =>
    have all := every.queue
    rw [queue] at all
    exact { every with
      queue := fun held member => all held (mem_cons_of_mem _ member)
      phase := forall_mem_singleton.mpr (all copy mem_cons_self) }
  | @reclaim _ copy idle found =>
    exact { every with
      claims := fun held member => every.claims held (mem_of_mem_eraseIdx member)
      phase := forall_mem_singleton.mpr (every.claims copy (mem_of_getElem? found)) }
  | loadStale phase | loadCurrent phase | readNames phase | readInboxes phase
  | noWorker phase | refuse phase | block phase =>
    exact { every with phase := forall_mem_singleton.mpr (every.inPhase phase rfl) }
  | @deliver ack send copy target msg _ phase branch found =>
    have settled : Throughout moving delayed spawned
        { plane with dispatcher := advanced config plane copy, phase := .idle, claims := plane.unacked ack copy } :=
      { every with claims := every.unacked (every.inPhase phase rfl), phase := at_rest }
    refine settled.setCell _ found ?_
    rw [Cell.copies, ← append_assoc]
    exact appended (fun held member => .inl member) (.inr (delivers ack send copy target msg rfl phase branch))
  | expire phase | relayFails phase =>
    exact { every with claims := every.unacked (every.inPhase phase rfl), phase := at_rest }
  | @relay _ copy msg phase branch =>
    have moves := every.inPhase phase rfl
    exact { every with
      claims := every.unacked moves
      phase := forall_mem_singleton.mpr (hops copy (.relay msg branch) moves) }
  | requeue phase | resume phase | relayed phase =>
    exact { every with queue := appended every.queue (every.inPhase phase rfl), phase := at_rest }
  | requeueUnreleased phase =>
    have moves := every.inPhase phase rfl
    exact { every with queue := appended every.queue moves, claims := appended every.claims moves, phase := at_rest }
  | nackFails phase =>
    exact { every with claims := appended every.claims (every.inPhase phase rfl), phase := at_rest }
  | @recvResolved _ _ _ copy _ _ queue | @recvIdle _ _ _ copy _ queue =>
    have all := every.queue
    rw [queue] at all
    have moves := all copy mem_cons_self
    exact { every with
      queue := fun held member => all held (mem_cons_of_mem _ member)
      claims := every.unacked moves
      outbox := appended every.outbox moves }
  | @recvExpired _ _ _ copy _ _ queue =>
    have all := every.queue
    rw [queue] at all
    exact { every with
      queue := fun held member => all held (mem_cons_of_mem _ member)
      claims := every.unacked (all copy mem_cons_self) }
  | @recvRelayed _ sent _ copy _ target queue _ targeted unknown budget =>
    have all := every.queue
    rw [queue] at all
    have moves := all copy mem_cons_self
    refine { every with
      queue := fun held member => all held (mem_cons_of_mem _ member)
      claims := every.unacked moves
      outbox := appended every.outbox ?_ }
    cases sent with
    | false => exact moves
    | true => exact hops copy (.recv target targeted unknown budget) moves
  | @recvEphemeral _ _ _ copy _ queue _ untargeted =>
    have all := every.queue
    rw [queue] at all
    have moves := all copy mem_cons_self
    exact { every with
      queue := fun held member => all held (mem_cons_of_mem _ member)
      claims := every.unacked moves
      ephemerals := appended every.ephemerals (spawns copy moves untargeted) }
  | fetch =>
    refine { every with delays := fun held member => every.delays held (mem_filter.mp member).1, fetched := ?_ }
    exact forall_mem_append.mpr ⟨every.fetched, fun held member => every.delays held (mem_filter.mp member).1⟩
  | @deliverDelayed env copy rest fetched =>
    have all := every.fetched
    rw [fetched] at all
    have taken : Throughout moving delayed spawned { plane with fetched := rest } :=
      { every with fetched := fun held member => all held (mem_cons_of_mem _ member) }
    exact taken.apply (lands _ _ (.deliverDelayed fetched))
  | receive found running free inbox =>
    exact every.keepCell _ found (by simp [Cell.copies, free, inbox])
  | @giveUp _ _ _ cell _ found =>
    exact { every.keepCell { cell with hand := none } found (copies_released rfl rfl) with }
  | @forward _ _ _ cell copy found running hand misrouted routed =>
    have freed := every.keepCell { cell with hand := none } found (copies_released rfl rfl)
    have hop := hops copy (.forward cell.worker misrouted routed) (every.inHand found hand)
    exact { freed with outbox := appended every.outbox hop }
  | @finish channel env run cell copy found running hand =>
    have freed := every.keepCell { cell with hand := none, completed := cell.completed ++ [copy] } found
      (copies_released rfl rfl)
    exact { freed.apply (lands _ _ (.finish found hand)) with }
  | @finishEphemeral index name env run copy found =>
    have taken : Throughout moving delayed spawned { plane with ephemerals := plane.ephemerals.eraseIdx index } :=
      { every with ephemerals := fun held member => every.ephemerals held (mem_of_mem_eraseIdx member) }
    exact taken.apply (lands _ _ (.finishEphemeral found))
  | create =>
    refine { every with cells := forall_mem_append.mpr ⟨every.cells, forall_mem_singleton.mpr ?_⟩ }
    simp [Cell.copies]
  | @register _ cell found =>
    exact { every.keepCell { cell with registered := true } found fun _ member => member with }
  | notify found | exit found | unregister found =>
    exact every.keepCell _ found fun _ member => member
  | unmap | forget => exact { every with }
  | stop found => exact every.keepCell _ found (copies_released rfl rfl)
  | close found => exact every.keepCell _ found (copies_drained rfl rfl)

end

end EventBase.Proofs.PlaneTraffic
