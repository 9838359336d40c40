import EventBase.Proofs.RetryBudget

/-! Relays and retries raise one counter, so a message that was relayed on its way to
its worker has fewer runs left. -/

namespace EventBase.Proofs.RelayedBudget
open Foundations Accepted JourneySteps RetryBudget Dispatcher Worker

structure Forwarded (origin : EMessage) (relays : Nat) (copy : EMessage) : Prop where
  same : copy = { origin with attempts := copy.attempts }
  count : copy.attempts.toNat = origin.attempts.toNat + relays
  few : 0 < relays → copy.attempts.toNat ≤ maxTargetedHops.toNat

/-- A worker that was handed the copy by a dispatcher will run its handler; one that
took it from the queue may pass it on. -/
inductive Carries (origin : EMessage) (relays : Nat) : Place → Prop where
  | queued (copy : EMessage) (forwarded : Forwarded origin relays copy) : Carries origin relays (.queued copy)
  | taken (worker : Worker) (copy : EMessage) (forwarded : Forwarded origin relays copy) : Carries origin relays (.handed worker copy)
  | routed (worker : Worker) (copy : EMessage) (routed : worker.isMisrouted copy = false) : Carries origin relays (.handed worker copy)

structure Relaying (origin : EMessage) (journey : Journey) : Prop where
  letters : journey.letters = []
  single : journey.places = [] ∨ ∃ place, journey.places = [place] ∧ Carries origin journey.relays place

section
variable {origin : EMessage} {journey next : Journey} {event : JourneyEvent}

theorem relaying_start (msg : EMessage) : Relaying msg ⟨[.queued msg], [], [], 0⟩ :=
  ⟨rfl, .inr ⟨_, rfl, .queued msg ⟨rfl, rfl, fun more => absurd more (Nat.lt_irrefl 0)⟩⟩⟩

theorem Forwarded.relayed {relays copy} (forwarded : Forwarded origin relays copy)
    (hops : ¬ maxTargetedHops ≤ copy.attempts) :
    Forwarded origin (relays + 1) { copy with attempts := copy.attempts + 1 } := by
  have below : copy.attempts.toNat < maxTargetedHops.toNat := by
    rw [← UInt32.lt_iff_toNat_lt, ← UInt32.not_le]
    exact hops
  have bound : maxTargetedHops.toNat = 64 := rfl
  have raised : (copy.attempts + 1).toNat = copy.attempts.toNat + 1 := by
    rw [UInt32.toNat_add, UInt32.toNat_one]
    omega
  refine ⟨?_, ?_, fun _ => ?_⟩
  · rw [forwarded.same]
  · rw [raised, forwarded.count]
    omega
  · rw [raised]
    omega

theorem Relaying.place (relaying : Relaying origin journey) {index place}
    (found : journey.places[index]? = some place) :
    journey.places = [place] ∧ index = 0 ∧ Carries origin journey.relays place := by
  rcases relaying.single with none | ⟨only, single, carries⟩
  · simp [none] at found
  · obtain ⟨rfl, rfl⟩ := only_place single found
    exact ⟨single, rfl, carries⟩

theorem Relaying.relay (relaying : Relaying origin journey) {place} (single : journey.places = [place]) {copy}
    (forwarded : Forwarded origin journey.relays copy) (hops : ¬ maxTargetedHops ≤ copy.attempts) :
    Relaying origin (journey.relay 0 copy) :=
  ⟨relaying.letters, .inr ⟨_, move_only single _, .queued _ (forwarded.relayed hops)⟩⟩

theorem Relaying.lost (relaying : Relaying origin journey) {place} (single : journey.places = [place]) :
    Relaying origin (journey.move 0 []) := ⟨relaying.letters, .inl (move_only single [])⟩

theorem Relaying.step (relaying : Relaying origin journey) (targeted : origin.toWorker.isSome = true)
    (stepped : journey.step origin.topic event = some next) (unhandled : next.handled = []) : Relaying origin next := by
  cases moves_of_step stepped with
  | pass found passed =>
    obtain ⟨single, rfl, carries⟩ := relaying.place found
    cases carries with
    | queued copy forwarded =>
      cases passed with
      | kept => exact relaying
      | lost => exact relaying.lost single
      | relayed _ hops => exact relaying.relay single forwarded hops
      | delivered =>
        exact ⟨relaying.letters, .inr ⟨_, move_only single _, .routed _ _ (by simp [isMisrouted])⟩⟩
      | spawned untargeted =>
        rw [forwarded.same] at untargeted
        rw [show origin.toWorker = none from untargeted] at targeted
        cases targeted
      | received => exact ⟨relaying.letters, .inr ⟨_, move_only single _, .taken _ _ forwarded⟩⟩
  | fetch found =>
    obtain ⟨-, -, carries⟩ := relaying.place found
    cases carries
  | give found =>
    obtain ⟨single, rfl, -⟩ := relaying.place found
    exact relaying.lost single
  | route found misrouted hops =>
    obtain ⟨single, rfl, carries⟩ := relaying.place found
    cases carries with
    | taken _ _ forwarded => exact relaying.relay single forwarded hops
    | routed _ _ routed =>
      rw [routed] at misrouted
      cases misrouted
  | handle => simp at unhandled

theorem handled_of_step (stepped : journey.step origin.topic event = some next) (unhandled : next.handled = []) :
    journey.handled = [] := by
  cases moves_of_step stepped with
  | pass found passed => cases passed <;> exact unhandled
  | fetch | give | route => exact unhandled
  | handle => simp at unhandled

theorem relaying_of_run {events} (targeted : origin.toWorker.isSome = true)
    (ran : run (Journey.step origin.topic) ⟨[.queued origin], [], [], 0⟩ events = some journey)
    (unhandled : journey.handled = []) :
    Relaying origin journey := by
  refine run_preserves (fun journey => journey.handled = [] → Relaying origin journey) ?_ (fun _ => relaying_start origin) ran
    unhandled
  intro state event next relaying stepped unhandled
  exact (relaying (handled_of_step stepped unhandled)).step targeted stepped unhandled

end

/-- While the message is always refused the handler runs equally often in both
journeys before they end. -/
def SameRuns (topic : String) (maxRetries : UInt32) (first second : Journey) : Prop :=
  ∃ count, Follows topic maxRetries first (fun journey => journey.handled.length = count) ∧
    Follows topic maxRetries second fun journey => journey.handled.length = count

theorem follows_count_iff {origin maxRetries total start} (retrying : Retrying origin maxRetries total start)
    (count : Nat) :
    Follows origin.topic maxRetries start (fun journey => journey.handled.length = count) ↔ count = total := by
  constructor
  · intro follows
    obtain ⟨events, journey, admitted, ran, gone⟩ := retrying.finishes
    rw [← follows.ends events journey admitted ran gone, ((retrying.run admitted ran).ended gone).1]
  · rintro rfl
    exact retrying.follows fun journey kept gone => (kept.ended gone).1

theorem runsLeft_relayed {topic maxRetries attempts after relays} (count : after.toNat = attempts.toNat + relays)
    (few : 0 < relays → after.toNat ≤ maxTargetedHops.toNat) :
    runsLeft topic maxRetries attempts = runsLeft topic maxRetries after ↔
      isSystemTopic topic = true ∨ relays = 0 ∨ maxRetries.toNat ≤ attempts.toNat + 1 := by
  unfold runsLeft
  split
  · next system => exact ⟨fun _ => .inl system, fun _ => rfl⟩
  · next business =>
    rcases Nat.eq_zero_or_pos relays with rfl | relayed
    · have same : after = attempts := UInt32.toNat_inj.mp count
      exact ⟨fun _ => .inr (.inl rfl), fun _ => by rw [same]⟩
    · have bound : after.toNat ≤ 64 := few relayed
      have first : (attempts + 1).toNat = attempts.toNat + 1 := by
        rw [UInt32.toNat_add, UInt32.toNat_one]
        omega
      have last : (after + 1).toNat = after.toNat + 1 := by
        rw [UInt32.toNat_add, UInt32.toNat_one]
        omega
      rw [budget, budget, first, last]
      constructor
      · intro same
        omega
      · rintro (system | none | spent)
        · exact absurd system business
        · omega
        · omega

/-- A targeted message that dispatchers, recv loops and workers relay in any way before
a dispatcher has its worker: the handler runs as often as if it had not been relayed,
exactly if the handler runs only once or there was no relay. -/
theorem relayed_runs_iff {msg relayed : EMessage} {events : List JourneyEvent} {journey : Journey}
    (targeted : msg.toWorker.isSome = true)
    (ran : run (Journey.step msg.topic) ⟨[.queued msg], [], [], 0⟩ events = some journey) (unhandled : journey.handled = [])
    (waiting : journey.places = [.queued relayed]) (maxRetries : UInt32) :
    SameRuns msg.topic maxRetries ⟨[.queued msg], [], [], 0⟩ journey ↔
      isSystemTopic msg.topic = true ∨ journey.relays = 0 ∨ maxRetries.toNat ≤ msg.attempts.toNat + 1 := by
  have relaying := relaying_of_run targeted ran unhandled
  have found : journey.places[0]? = some (.queued relayed) := by rw [waiting]; rfl
  obtain ⟨-, -, carries⟩ := relaying.place found
  cases carries with
  | queued _ forwarded =>
    have topic : relayed.topic = msg.topic := by rw [forwarded.same]
    have direct : Retrying msg maxRetries (runsLeft msg.topic maxRetries msg.attempts) ⟨[.queued msg], [], [], 0⟩ :=
      retrying_start rfl rfl rfl maxRetries
    have late := retrying_start waiting unhandled relaying.letters maxRetries
    have lateRuns := follows_count_iff late
    rw [topic] at lateRuns
    rw [← runsLeft_relayed forwarded.count forwarded.few]
    constructor
    · rintro ⟨count, first, second⟩
      rw [← (follows_count_iff direct count).mp first]
      exact (lateRuns count).mp second
    · intro same
      exact ⟨_, (follows_count_iff direct _).mpr rfl, (lateRuns _).mpr same⟩

section
private def letter (attempts : UInt32) : EMessage :=
  { EMessage.new "m" 0 "letters" [] .standard (some "w") with attempts }

private def clerk : Worker := { topic := "letters", name := "w" }

private def office : Env := { nodeType := .host, registry := ∅ }

private def refusal (attempts : UInt32) : PipelineRun := { answer := .noAck none 2, message := letter attempts }

private def posted : Journey := ⟨[.queued (letter 0)], [], [], 0⟩

private def detour : JourneyEvent := .dispatch 0 none [{ topic := "letters", name := "v" }] 0

private def detoured : Journey := ⟨[.queued (letter 1)], [], [], 1⟩

private def round (attempts : UInt32) : List JourneyEvent := [.dispatch 0 none [clerk] 0, .process 0 office (refusal attempts)]

theorem detoured_once_same_runs : run (Journey.step "letters") posted [detour] = some detoured ∧ SameRuns "letters" 1 posted detoured := by
  have ran : run (Journey.step "letters") posted [detour] = some detoured := by decide +kernel
  have targeted : (letter 0).toWorker.isSome = true := rfl
  exact ⟨ran, (relayed_runs_iff targeted ran rfl rfl 1).mpr (.inr (.inr (by decide)))⟩

private theorem round_refusing {journey attempts} (waiting : journey.places = [.queued (letter attempts)]) :
    Along (Journey.step "letters") (Refusing "letters" 2) journey (round attempts) := by
  have dispatched : journey.step "letters" (.dispatch 0 none [clerk] 0) =
      some (journey.move 0 [.handed clerk (letter attempts)]) := by
    simp only [Journey.step, waiting, List.getElem?_cons_zero]
    rfl
  refine along_cons ⟨?_, by simp, ?_⟩ dispatched ⟨?_, fun _ _ => trivial⟩
  · intro worker member
    rw [List.mem_singleton.mp member]
    rfl
  · intro msg target found named
    rw [waiting] at found
    cases found
    cases named
    exact ⟨clerk, List.mem_singleton_self _, by decide⟩
  · intro worker msg found
    rw [move_only waiting] at found
    cases found
    exact ⟨⟨rfl, fun _ _ => rfl, fun _ => rfl, fun _ known => (by cases known), Int.le_refl 0⟩, rfl, none, rfl, fun _ => rfl⟩

/-- Of two runs the relay takes one. -/
theorem detour_costs_run :
    run (Journey.step "letters") posted [detour] = some detoured ∧ ¬ SameRuns "letters" 2 posted detoured := by
  refine ⟨by decide +kernel, ?_⟩
  rintro ⟨count, direct, late⟩
  obtain ⟨middle, first, again⟩ : ∃ middle, run (Journey.step "letters") posted (round 0) = some middle ∧
      middle.places = [.queued (letter 1)] := ⟨_, rfl, by decide +kernel⟩
  have twice := direct.ends (round 0 ++ round 1) _ (along_append (round_refusing rfl) first (round_refusing again)) rfl
    (by decide +kernel)
  have once := late.ends (round 1) _ (round_refusing rfl) rfl (by decide +kernel)
  exact absurd (twice.trans once.symm) (by decide +kernel)

end

end EventBase.Proofs.RelayedBudget
