import EventBase.Proofs.JourneySteps

/-! A message in `Repeated` mode is acknowledged as often as it says. The count
travels in the message and only an acknowledgement raises it. -/

namespace EventBase.Proofs.RepeatedDelivery
open Foundations Accepted StatusReports Disposition JourneySteps

/-- Workers belong to the topic, calls are accepted, the pipeline leaves the message
as it is, and the handler answers Ack, or NoAck below the retry budget. -/
def Steady (topic : String) (journey : Journey) : JourneyEvent → Prop
  | .dispatch _ _ workers _ => ∀ worker ∈ workers, worker.topic = topic
  | .recv _ _ ephemeral => ephemeral.topic = topic
  | .receive _ worker => worker.topic = topic
  | .fetch _ env => Calm topic env
  | .process index env run => ∀ worker msg, journey.places[index]? = some (.handed worker msg) →
      Calm topic env ∧ run.message = msg ∧
        (worker.status run = .ack ∨
          ∃ retryAfter maxRetries, worker.status run = .noAck retryAfter maxRetries ∧ ¬ maxRetries ≤ msg.attempts + 1)

def isAck (handling : Handling) : Bool := decide (handling.worker.status handling.run = .ack)

def acks (handled : List Handling) : Nat := handled.countP isAck

def completes (handling : Handling) : Prop := (handling.message.id, .complete) ∈ marks handling.effects

def leaves (handling : Handling) : List Effect := handling.effects.filterMap business

/-- The call after `count` acknowledgements: the last acknowledgement marks the
message complete and leaves no copy, every other one leaves one copy that counts one
more, and a NoAck leaves one copy and the count. -/
structure Entry (times : UInt32) (count : Nat) (handling : Handling) : Prop where
  before : count < times.toNat
  counted : handling.message.consumedCount.toNat = count
  last : isAck handling = true → count + 1 = times.toNat → completes handling ∧ leaves handling = []
  again : isAck handling = true → count + 1 < times.toNat →
    ¬ completes handling ∧ leaves handling = [.requeue (consumed handling.message)]
  retry : isAck handling = false → ¬ completes handling ∧ (leaves handling).length = 1

def Ledger (times : UInt32) (handled : List Handling) : Prop :=
  ∀ before handling after, handled = before ++ handling :: after → Entry times (acks before) handling

theorem ledger_concat {times handled handling} (ledger : Ledger times handled)
    (entry : Entry times (acks handled) handling) : Ledger times (handled ++ [handling]) := by
  intro before other after split
  rcases concat_split_cases split with ⟨rfl, rfl, -⟩ | ⟨rest, -, rfl⟩
  · exact entry
  · exact ledger before other rest rfl

section
variable {times : UInt32} {count : Nat} {handling : Handling} (before : count < times.toNat)
  (counted : handling.message.consumedCount.toNat = count)
include before counted

theorem entry_last (reached : count + 1 = times.toNat) (acked : isAck handling = true) (complete : completes handling)
    (left : leaves handling = []) : Entry times count handling := by
  refine ⟨before, counted, fun _ _ => ⟨complete, left⟩, ?_, ?_⟩
  · intro _ more
    omega
  · intro refused
    cases acked.symm.trans refused

theorem entry_again (remaining : count + 1 < times.toNat) (acked : isAck handling = true) (incomplete : ¬ completes handling)
    (left : leaves handling = [.requeue (consumed handling.message)]) : Entry times count handling := by
  refine ⟨before, counted, ?_, fun _ _ => ⟨incomplete, left⟩, ?_⟩
  · intro _ reached
    omega
  · intro refused
    cases acked.symm.trans refused

theorem entry_retry (refused : isAck handling = false) (incomplete : ¬ completes handling)
    (left : (leaves handling).length = 1) : Entry times count handling := by
  refine ⟨before, counted, ?_, ?_, fun _ => ⟨incomplete, left⟩⟩
  · intro acked
    cases acked.symm.trans refused
  · intro acked
    cases acked.symm.trans refused

end

theorem acks_concat (handled : List Handling) (handling : Handling) :
    acks (handled ++ [handling]) = acks handled + if isAck handling then 1 else 0 := by
  simp [acks, List.countP_append, List.countP_singleton]

structure Carried (topic : String) (times : UInt32) (count : Nat) (msg : EMessage) : Prop where
  mode : msg.deliveryMode = .repeated times
  topic : msg.topic = topic
  count : msg.consumedCount.toNat = count

theorem Carried.unicast {topic times count msg} (carried : Carried topic times count msg) :
    msg.deliveryMode ≠ .broadcast := by
  rw [carried.mode]
  simp

def Local (topic : String) : Place → Prop
  | .handed worker _ => worker.topic = topic
  | _ => True

structure Counting (topic : String) (times : UInt32) (journey : Journey) : Prop where
  ledger : Ledger times journey.handled
  bounded : acks journey.handled ≤ times.toNat
  copies : journey.places = [] ∨ ∃ place, journey.places = [place] ∧ Local topic place ∧ acks journey.handled < times.toNat ∧
    Carried topic times (acks journey.handled) (Place.message place)

section
variable {topic : String} {times : UInt32} {journey next : Journey} {event : JourneyEvent}

theorem counting_start {msg} (mode : msg.deliveryMode = .repeated times) (positive : 0 < times.toNat)
    (fresh : msg.consumedCount = 0) : Counting msg.topic times ⟨[.queued msg], [], [], 0⟩ where
  ledger before handling after split := by simp at split
  bounded := Nat.zero_le _
  copies := .inr ⟨_, rfl, trivial, positive, mode, rfl, by rw [Place.message, fresh]; rfl⟩

theorem Counting.kept (counting : Counting topic times journey) (handled : next.handled = journey.handled)
    (copies : next.places = [] ∨ ∃ place, next.places = [place] ∧ Local topic place ∧ acks journey.handled < times.toNat ∧
      Carried topic times (acks journey.handled) (Place.message place)) : Counting topic times next where
  ledger := by
    rw [handled]
    exact counting.ledger
  bounded := by
    rw [handled]
    exact counting.bounded
  copies := by
    rw [handled]
    exact copies

theorem Counting.place (counting : Counting topic times journey) {index place}
    (found : journey.places[index]? = some place) :
    journey.places = [place] ∧ index = 0 ∧ Local topic place ∧ acks journey.handled < times.toNat ∧
      Carried topic times (acks journey.handled) (Place.message place) := by
  rcases counting.copies with none | ⟨only, single, own, below, carried⟩
  · simp [none] at found
  · obtain ⟨rfl, rfl⟩ := only_place single found
    exact ⟨single, rfl, own, below, carried⟩

theorem Counting.moved (counting : Counting topic times journey) {index place}
    (found : journey.places[index]? = some place) (handled : next.handled = journey.handled) (after : Place)
    (places : next.places = (journey.move index [after]).places) (own : Local topic after)
    (mode : (Place.message after).deliveryMode = (Place.message place).deliveryMode)
    (same : (Place.message after).topic = (Place.message place).topic)
    (count : (Place.message after).consumedCount = (Place.message place).consumedCount) : Counting topic times next := by
  obtain ⟨single, rfl, -, below, carried⟩ := counting.place found
  refine counting.kept handled (.inr ⟨after, by rw [places, move_only single], own, below, ?_⟩)
  exact ⟨mode.trans carried.mode, same.trans carried.topic, (congrArg UInt32.toNat count).trans carried.count⟩

theorem Counting.lost (counting : Counting topic times journey) {index place}
    (found : journey.places[index]? = some place) : Counting topic times (journey.move index []) := by
  obtain ⟨single, rfl, -⟩ := counting.place found
  exact counting.kept rfl (.inl (move_only single []))

theorem Counting.fetch (counting : Counting topic times journey) {index env record}
    (found : journey.places[index]? = some (.delayed record)) (calm : Calm topic env) :
    Counting topic times (journey.emit topic index (deliverDelayed env record).outcome.1) := by
  obtain ⟨single, rfl, -, -, carried⟩ := counting.place found
  have topic_ : record.message.topic = topic := carried.topic
  have sent := deliverDelayed_business calm.sends (fun table known => topic_ ▸ (calm.routes table known).1) carried.unicast
  refine counting.moved found rfl (.queued { record.message with deliverAt := none }) ?_ trivial rfl rfl rfl
  rw [(emit_only topic single sent).1, move_only single]
  simp [arrival, topic_]

theorem Counting.booked (counting : Counting topic times journey) {handling}
    (entry : Entry times (acks journey.handled) handling) (handled : next.handled = journey.handled ++ [handling])
    (copies : next.places = [] ∨ ∃ place, next.places = [place] ∧ Local topic place ∧ acks next.handled < times.toNat ∧
      Carried topic times (acks next.handled) (Place.message place)) : Counting topic times next where
  ledger := by
    rw [handled]
    exact ledger_concat counting.ledger entry
  bounded := by
    have before := entry.before
    rw [handled, acks_concat]
    split <;> omega
  copies := copies

def callOf (env : Env) (worker : Worker) (run : PipelineRun) : Handling :=
  ⟨worker, run.message, run, (worker.processMsg env run run.message).outcome.1⟩

section
variable (counting : Counting topic times journey) (business : isSystemTopic topic = false) {index : Nat} {env : Env}
  {run : PipelineRun} {worker : Worker} (found : journey.places[index]? = some (.handed worker run.message))
  (calm : Calm topic env)
include counting business found calm

theorem Counting.trace :
    Traced (callOf env worker run).effects (((run.message.id, .processing), none) :: reports (worker.status run) run.message)
      (Disposition.copies worker (worker.status run) run.message (env.clock 7)) ∧
    (journey.emit topic index (callOf env worker run).effects).places =
      (Disposition.copies worker (worker.status run) run.message (env.clock 7)).filterMap (arrival topic) := by
  obtain ⟨single, rfl, own, -, carried⟩ := counting.place found
  have topic_ : run.message.topic = topic := carried.topic
  have traced := processMsg_trace (calm.reliable own) run.message (by rw [own, business])
    (fun fanned => absurd fanned carried.unicast) fun _ _ _ _ table known => topic_ ▸ (calm.routes table known).1
  exact ⟨traced, (emit_only topic single traced.business).1⟩

theorem Counting.acknowledged (answer : worker.status run = .ack) :
    Counting topic times { journey.emit topic index (callOf env worker run).effects with
      handled := journey.handled ++ [callOf env worker run] } := by
  obtain ⟨-, -, -, below, carried⟩ := counting.place found
  obtain ⟨traced, arrived⟩ := counting.trace business found calm
  have count : run.message.consumedCount.toNat = acks journey.handled := carried.count
  have mode : run.message.deliveryMode = .repeated times := carried.mode
  have acked : isAck (callOf env worker run) = true := by simp [isAck, callOf, answer]
  have raised : (run.message.consumedCount + 1).toNat = acks journey.handled + 1 := by
    have range := times.toNat_lt
    rw [UInt32.toNat_add, UInt32.toNat_one, count]
    omega
  simp only [answer, reports, verdict, Disposition.copies, mode] at traced arrived
  by_cases final : times = run.message.consumedCount + 1
  · have reached : acks journey.handled + 1 = times.toNat := by rw [final, raised]
    rw [if_pos final] at traced arrived
    rw [if_pos final] at traced
    have complete : completes (callOf env worker run) := by
      rw [completes, traced.marks]
      simp [callOf]
    exact counting.booked (entry_last below count reached acked complete traced.business) rfl (.inl arrived)
  · have remaining : acks journey.handled + 1 < times.toNat := by
      have other : acks journey.handled + 1 ≠ times.toNat := by
        intro same
        exact final (UInt32.toNat_inj.mp (by rw [raised, same]))
      omega
    rw [if_neg final] at traced arrived
    rw [if_neg final] at traced
    have incomplete : ¬ completes (callOf env worker run) := by
      rw [completes, traced.marks]
      simp
    refine counting.booked (entry_again below count remaining acked incomplete traced.business) rfl
      (.inr ⟨.queued (consumed run.message), arrived, trivial, ?_, ?_⟩)
    · rw [acks_concat, if_pos acked]
      exact remaining
    · rw [acks_concat, if_pos acked]
      exact ⟨mode, carried.topic, raised⟩

theorem Counting.refused {retryAfter maxRetries} (answer : worker.status run = .noAck retryAfter maxRetries)
    (budget : ¬ maxRetries ≤ run.message.attempts + 1) :
    Counting topic times { journey.emit topic index (callOf env worker run).effects with
      handled := journey.handled ++ [callOf env worker run] } := by
  obtain ⟨-, -, -, below, carried⟩ := counting.place found
  obtain ⟨traced, arrived⟩ := counting.trace business found calm
  have topic_ : run.message.topic = topic := carried.topic
  have count : run.message.consumedCount.toNat = acks journey.handled := carried.count
  have refused : isAck (callOf env worker run) = false := by simp [isAck, callOf, answer]
  obtain ⟨effect, place, only, lands, -, free, same⟩ := retry_arrives topic_ budget (env.clock 7)
  rw [answer, only] at traced arrived
  rw [List.filterMap_cons_some lands] at arrived
  have kept : acks (journey.handled ++ [callOf env worker run]) = acks journey.handled := by
    rw [acks_concat, refused]
    rfl
  have incomplete : ¬ completes (callOf env worker run) := by
    rw [completes, traced.marks]
    simp [reports, verdict, budget]
  have left : (leaves (callOf env worker run)).length = 1 := by
    rw [leaves, traced.business]
    rfl
  refine counting.booked (entry_retry below count refused incomplete left) rfl (.inr ⟨place, arrived, ?_, ?_, ?_⟩)
  · cases place with
    | handed worker msg => exact absurd rfl (free worker msg)
    | _ => trivial
  · rw [kept]
    exact below
  · rw [kept, same]
    exact ⟨carried.mode, carried.topic, carried.count⟩

end

theorem Counting.step (counting : Counting topic times journey) (business : isSystemTopic topic = false)
    (steady : Steady topic journey event) (stepped : journey.step topic event = some next) : Counting topic times next := by
  cases moves_of_step stepped with
  | @pass _ msg _ _ place passed =>
    cases passed with
    | kept => exact counting
    | lost => exact counting.lost place
    | relayed =>
      exact counting.moved place rfl (.queued { msg with attempts := msg.attempts + 1 }) rfl trivial rfl rfl rfl
    | @delivered _ _ _ worker member =>
      exact counting.moved place rfl (.handed worker { msg with toWorker := some worker.name }) rfl (steady worker member)
        rfl rfl rfl
    | @spawned worker | @received worker => exact counting.moved place rfl (.handed worker msg) rfl steady rfl rfl rfl
  | fetch place => exact counting.fetch place steady
  | give place => exact counting.lost place
  | @route _ _ _ _ msg place =>
    exact counting.moved place rfl (.queued { msg with attempts := msg.attempts + 1 }) rfl trivial rfl rfl rfl
  | @handle _ _ _ worker msg place routed =>
    obtain ⟨calm, rfl, answers⟩ := steady worker msg place
    rcases answers with answer | ⟨retryAfter, maxRetries, answer, budget⟩
    · exact counting.acknowledged business place calm answer
    · exact counting.refused business place calm answer budget

end

section
variable (topic : String)

private def order : EMessage := EMessage.new "m" 0 topic [] (.repeated 2) none

private def worker : Worker := { topic, name := "w" }

private def host : Env := { nodeType := .host, registry := ∅ }

private def sent : Journey := ⟨[.queued (order topic)], [], [], 0⟩

private def delivered : EMessage := { order topic with toWorker := some "w" }

private def served : PipelineRun := { answer := .ack, message := delivered topic }

private def once : List JourneyEvent := [.dispatch 0 none [worker topic] 0, .process 0 host (served topic)]

private theorem once_steady : Along (Journey.step topic) (Steady topic) (sent topic) (once topic) := by
  refine ⟨fun other member => ?_, fun next stepped => ?_⟩
  · rw [List.mem_singleton.mp member]
    rfl
  · obtain rfl : ⟨[.handed (worker topic) (delivered topic)], [], [], 0⟩ = next := Option.some.inj stepped
    refine ⟨fun other msg place => ?_, fun _ _ => trivial⟩
    cases place
    refine ⟨⟨rfl, fun _ _ => rfl, fun _ => rfl, fun _ known => ?_, Int.le_refl 0⟩, rfl, .inl rfl⟩
    cases known

end

end EventBase.Proofs.RepeatedDelivery
