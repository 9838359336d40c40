import EventBase.DelayNode
import EventBase.Proofs.DelayTiming
import EventBase.Proofs.TaskLogic

/-! No message is handed to the producer before its time, as long as the time can be
written down: as a `SystemTime` when it is computed, and in Redis as a score. -/

namespace EventBase.Proofs.NeverEarly
open Foundations DelayTiming TaskLogic List Option DelayNode

def InTimeToWait (clock : SystemTime) (notBefore : Option SystemTime) : Prop :=
  ∀ deadline, notBefore = some deadline → wholeMillis deadline ≤ wholeMillis clock

instance (clock : SystemTime) (notBefore : Option SystemTime) : Decidable (InTimeToWait clock notBefore) :=
  inferInstanceAs (Decidable (∀ deadline ∈ notBefore, wholeMillis deadline ≤ wholeMillis clock))

/-- The message was handed over when its time had come, up to the millisecond. -/
def Punctual (handover : Handover) : Prop := InTimeToWait handover.time handover.notBefore

instance (handover : Handover) : Decidable (Punctual handover) := inferInstanceAs (Decidable (InTimeToWait _ _))

/-- The store can keep the deadline apart from every time that is left until then. -/
def Admits (clock deadline : SystemTime) : DelayService → Prop
  | .inProcess _ => True
  | .redis _ => Separated clock deadline

def OnTime (node : DelayNode) : DelayNodeEvent → Prop
  | .send _ _ _ msg _ _ => ∀ deadline, msg.deliverAt = some deadline → Admits node.clock deadline node.service
  | .retry _ _ _ _ delay _ _ =>
    node.clock + delay < SystemTime.limit ∧ Admits node.clock (node.clock + delay) node.service
  | .command index =>
    match node.service with
    | .inProcess _ => True
    | .redis state => Timely node.clock state (.command index)
  | _ => True

section
variable {clock : SystemTime} {admits : SystemTime → Prop} {notBefore : Option SystemTime} {env : Env}

def EffectInTime (clock : SystemTime) (admits : SystemTime → Prop) (notBefore : Option SystemTime) : Effect → Prop
  | .schedule record => ∀ deadline, record.message.deliverAt = some deadline → admits deadline
  | .publish _ | .requeue _ => InTimeToWait clock notBefore
  | .audit _ | .walSync _ => True

theorem send_inTime {topic msg trySend timeout}
    (later : ∀ deadline, msg.deliverAt = some deadline → admits deadline)
    (come : msg.deliverAt = none → InTimeToWait clock notBefore) :
    EmitsOnly (EffectInTime clock admits notBefore) (TopicRouter.send env topic msg trySend timeout) :=
  .send env (fun _ => later) (fun immediate _ _ _ => come immediate) fun immediate _ => come immediate

theorem deliverDelayed_inTime {record} (come : InTimeToWait clock notBefore) :
    EmitsOnly (EffectInTime clock admits notBefore) (deliverDelayed env record) :=
  (send_inTime (by simp) fun _ => come).ignore

theorem onNoAck_inTime {worker : Worker} {msg : EMessage} {delay : Duration} {maxRetries processTime}
    (reads : ∀ tick, env.clock tick = clock) (below : ¬ maxRetries ≤ msg.attempts + 1)
    (representable : clock + delay < SystemTime.limit) (later : admits (clock + delay)) :
    EmitsOnly (EffectInTime clock admits (some (clock + delay)))
      (worker.onNoAck env msg (some delay) maxRetries processTime) := by
  have added : clock.checkedAdd delay = some (clock + delay) := if_pos representable
  unfold Worker.onNoAck
  refine EmitsOnly.bind (EmitsOnly.syncStatus env worker fun _ => trivial) fun _ => ?_
  refine EmitsOnly.cond (fun exhausted => absurd exhausted below) fun _ => ?_
  refine Emits.bind (now_emits env fun tick => ?_)
  simp only [reads, added, nil_append]
  refine send_inTime (fun deadline stamped => ?_) (by simp)
  cases stamped
  exact later

end

def ServiceInTime (clock : SystemTime) : DelayService → Prop
  | .inProcess _ => True
  | .redis state => InTime clock state

structure Sound (node : DelayNode) : Prop where
  service : ServiceInTime node.clock node.service
  fetched : ∀ record ∈ node.fetched, Ripe node.clock record
  handed : ∀ handover ∈ node.handed, Punctual handover

def Asks (node : DelayNode) : DelayCall → Prop
  | .schedule record => ∀ deadline, record.message.deliverAt = some deadline → Admits node.clock deadline node.service
  | .fetchReady now => now = node.clock
  | .removeScheduled _ => True

section
variable {node next : DelayNode}

theorem ripe_of_due {record now} (due : record.due now = true) : Ripe now record := by
  intro deadline stamped
  rw [WalRecord.due, stamped] at due
  exact wholeMillis_mono (of_decide_eq_true due)

theorem fetchReady_ripe {store : WalStore} {now : SystemTime} {record} (member : record ∈ (store.fetchReady now).1) :
    Ripe now record := by
  obtain ⟨entry, kept, rfl⟩ := mem_map.mp member
  exact ripe_of_due (mem_filter.mp kept).2

theorem call_service {client : Nat} {request service after fetched clock}
    (called : service.call client request = some (after, fetched)) (inTime : ServiceInTime clock service)
    (asks : ∀ state, service = .redis state → Timely clock state (.start client request))
    (reads : ∀ now, request = .fetchReady now → now = clock) :
    ServiceInTime clock after ∧ (∀ record ∈ fetched, Ripe clock record) ∧
      ∀ deadline, Admits clock deadline service → Admits clock deadline after := by
  cases service with
  | inProcess store =>
    cases request with
    | schedule record =>
      cases called
      exact ⟨trivial, by simp, fun _ admits => admits⟩
    | fetchReady now =>
      cases called
      exact ⟨trivial, fun record member => reads now rfl ▸ fetchReady_ripe member, fun _ admits => admits⟩
    | removeScheduled messageId =>
      cases called
      exact ⟨trivial, by simp, fun _ admits => admits⟩
  | redis state =>
    obtain ⟨started, stepped, same⟩ := map_eq_some_iff.mp called
    cases same
    exact ⟨InTime.step inTime (asks state rfl) stepped, by simp, fun _ admits => admits⟩

theorem Asks.timely {client request} (asks : Asks node request) {state}
    (redis : node.service = .redis state) : Timely node.clock state (.start client request) := by
  cases request with
  | schedule record =>
    intro deadline stamped
    have admitted := asks deadline stamped
    rwa [redis] at admitted
  | fetchReady now => exact asks
  | removeScheduled messageId => trivial

theorem Sound.call {client} (request : DelayCall) (sound : Sound node) (asks : Asks node request)
    (called : node.call client request = some next) :
    Sound next ∧ next.clock = node.clock ∧
      ∀ deadline, Admits node.clock deadline node.service → Admits node.clock deadline next.service := by
  obtain ⟨⟨service, fetched⟩, answered, rfl⟩ := map_eq_some_iff.mp called
  obtain ⟨inTime, ripe, admits⟩ := call_service answered sound.service (fun state redis => asks.timely redis)
    fun now same => by subst same; exact asks
  refine ⟨⟨inTime, fun record member => ?_, sound.handed⟩, rfl, admits⟩
  obtain member | member := mem_append.mp member
  · exact sound.fetched record member
  · exact ripe record member

theorem Sound.advance (event : DelayEvent) (sound : Sound node)
    (timely : ∀ state, node.service = .redis state → Timely node.clock state event)
    (advanced : node.advance event = some next) : Sound next := by
  obtain ⟨⟨service, fetched⟩, answered, rfl⟩ := map_eq_some_iff.mp advanced
  obtain ⟨held, clock, waiting, handed⟩ := node
  cases held with
  | inProcess store => cases answered
  | redis state =>
    obtain ⟨moved, stepped, same⟩ := map_eq_some_iff.mp answered
    cases same
    refine ⟨InTime.step sound.service (timely state rfl) stepped, fun record member => ?_, sound.handed⟩
    obtain member | member := mem_append.mp member
    · exact sound.fetched record member
    · simp only [DelayService.reply] at member
      split at member
      · next client =>
        split at member
        · next fetch held =>
          have inTime : InTime clock state := sound.service
          exact (inTime.clients _ (mem_of_getElem? held)).ready record member
        · cases member
      · cases member

theorem Sound.handOver {notBefore message} (sound : Sound node)
    (come : InTimeToWait node.clock notBefore) : Sound (node.handOver notBefore message) := by
  refine ⟨sound.service, sound.fetched, fun handover member => ?_⟩
  obtain member | member := mem_append.mp member
  · exact sound.handed handover member
  · rw [mem_singleton.mp member]
    exact come

theorem Sound.apply {client notBefore effects} (sound : Sound node)
    (each : ∀ effect ∈ effects, EffectInTime node.clock (fun deadline => Admits node.clock deadline node.service) notBefore effect)
    (applied : node.apply client notBefore effects = some next) : Sound next := by
  induction effects generalizing node with
  | nil =>
    cases applied
    exact sound
  | cons effect rest ih =>
    have first := each effect mem_cons_self
    have others := fun later member => each later (mem_cons_of_mem effect member)
    cases effect with
    | schedule record =>
      obtain ⟨middle, called, applied⟩ := bind_eq_some_iff.mp applied
      obtain ⟨sound, clock, admits⟩ := sound.call (.schedule record) first called
      refine ih sound (fun effect member => ?_) applied
      have permitted := others effect member
      rw [clock]
      cases effect with
      | schedule record => exact fun deadline stamped => admits deadline (permitted deadline stamped)
      | _ => exact permitted
    | publish message => exact ih (sound.handOver first) others applied
    | requeue message => exact ih (sound.handOver first) others applied
    | audit record => exact ih sound others applied
    | walSync sync => exact ih sound others applied

theorem Sound.tick {now} (sound : Sound node) (passed : node.clock ≤ now) :
    Sound { node with clock := now } := by
  refine ⟨?_, fun record member => (sound.fetched record member).later passed, sound.handed⟩
  obtain ⟨held, clock, waiting, handed⟩ := node
  cases held with
  | inProcess store => trivial
  | redis state => exact InTime.tick sound.service passed

theorem Sound.step {event : DelayNodeEvent} (onTime : OnTime node event) (sound : Sound node)
    (stepped : node.step event = some next) : Sound next := by
  cases event with
  | tick now =>
    simp only [DelayNode.step] at stepped
    split at stepped
    · next passed =>
      cases stepped
      exact sound.tick passed
    · cases stepped
  | send client env topic msg trySend timeout =>
    refine sound.apply (send_inTime onTime fun immediate deadline stamped => ?_).outcome stepped
    rw [immediate] at stamped
    cases stamped
  | retry client env worker msg delay maxRetries processTime =>
    simp only [DelayNode.step] at stepped
    split at stepped
    · cases stepped
    · next below =>
      exact sound.apply (onNoAck_inTime (fun _ => rfl) below onTime.1 onTime.2).outcome stepped
  | remove client messageId => exact (sound.call (.removeScheduled messageId) trivial stepped).1
  | fetch client => exact (sound.call (.fetchReady node.clock) rfl stepped).1
  | command client =>
    refine sound.advance (.command client) (fun state redis => ?_) stepped
    simp only [OnTime, redis] at onTime
    exact onTime
  | finish client => exact sound.advance (.finish client) (fun _ _ => trivial) stepped
  | fail client => exact sound.advance (.fail client) (fun _ _ => trivial) stepped
  | deliver client env =>
    simp only [DelayNode.step] at stepped
    split at stepped
    · cases stepped
    · next record rest waiting =>
      have ripe : Ripe node.clock record := sound.fetched record (waiting ▸ mem_cons_self)
      have remaining : Sound { node with fetched := rest } :=
        ⟨sound.service, fun later member => sound.fetched later (waiting ▸ mem_cons_of_mem _ member), sound.handed⟩
      exact remaining.apply (deliverDelayed_inTime ripe).outcome stepped

end

/-- A delay store before the first call: in-process with any contents, or an empty
Redis prefix and its clients. -/
inductive Untouched : DelayService → Prop
  | inProcess (store : WalStore) : Untouched (.inProcess store)
  | redis (clients : Nat) : Untouched (.redis (.init clients))

theorem Untouched.sound {service} (untouched : Untouched service) (clock : SystemTime) :
    Sound ⟨service, clock, [], []⟩ := by
  refine ⟨?_, by simp, by simp⟩
  cases untouched with
  | inProcess store => trivial
  | redis clients => exact InTime.init clock clients

/-- In every run whose steps are all on time, no message is handed over before its time. -/
theorem never_handed_over_early {service : DelayService} (untouched : Untouched service) {clock : SystemTime}
    {events : List DelayNodeEvent} {node : DelayNode}
    (onTime : Along DelayNode.step OnTime ⟨service, clock, [], []⟩ events)
    (ran : run DelayNode.step ⟨service, clock, [], []⟩ events = some node) : ∀ handover ∈ node.handed, Punctual handover :=
  (run_invariant Sound Sound.step onTime (untouched.sound clock) ran).handed

private def fetching : DelayClient → Bool
  | .listing _ _ | .claiming _ | .reading _ _ | .deleting _ _ _ => true
  | _ => false

private def ordinary (node : DelayNode) : DelayNodeEvent → Bool
  | .send _ _ _ msg _ _ => decide (0 ≤ node.clock ∧ ∀ deadline ∈ msg.deliverAt, deadline ≤ 2 ^ 53 * 1000000)
  | .retry _ _ _ _ delay _ _ => decide (0 ≤ node.clock ∧ node.clock + delay ≤ 2 ^ 53 * 1000000)
  | .command index =>
    match node.service with
    | .inProcess _ => true
    | .redis state =>
      match state.clients[index]? with
      | some (.storing _) => state.clients.all fun client => !fetching client
      | _ => true
  | _ => true

private theorem admits_of_le {node : DelayNode} {deadline} (epoch : 0 ≤ node.clock)
    (exact : deadline ≤ 2 ^ 53 * 1000000) :
    Admits node.clock deadline node.service := by
  cases node.service with
  | inProcess store => trivial
  | redis state => exact separated_of_le epoch exact

private theorem onTime_of_ordinary {node} {event : DelayNodeEvent} (checked : ordinary node event = true) :
    OnTime node event := by
  cases event with
  | send client env topic msg trySend timeout =>
    obtain ⟨epoch, exact⟩ := of_decide_eq_true checked
    exact fun deadline stamped => admits_of_le epoch (exact deadline stamped)
  | retry client env worker msg delay maxRetries processTime =>
    obtain ⟨epoch, exact⟩ := of_decide_eq_true checked
    exact ⟨Int.lt_of_le_of_lt exact (by decide), admits_of_le epoch exact⟩
  | command index =>
    simp only [ordinary] at checked
    simp only [OnTime]
    split
    · trivial
    · next state redis =>
      intro record held client member
      simp only [redis, held, List.all_eq_true] at checked
      have free := checked client member
      cases client <;> trivial
  | _ => trivial

private def shipping : Worker := { topic := "shipping", name := "w", timeOut := none }

private def depot : Env := { nodeType := .host, registry := ∅ }

private def parcel : EMessage := EMessage.new "parcel" 0 "shipping" [] .standard none

private def retried : List DelayNodeEvent :=
  [.retry 0 depot shipping parcel 5000000 3 0, .command 0, .command 0, .finish 0, .tick 7000000, .fetch 0, .command 0,
    .command 0, .command 0, .command 0, .finish 0, .deliver 0 depot]

theorem retry_delivered_in_time :
    ∃ node ∈ run DelayNode.step ⟨.redis (.init 1), 0, [], []⟩ retried,
      node.handed.length = 1 ∧ ∀ handover ∈ node.handed, Punctual handover := by
  obtain ⟨node, ran, handed⟩ : ∃ node ∈ run step ⟨.redis (.init 1), 0, [], []⟩ retried, node.handed.length = 1 := by
    decide +kernel
  have checked : Along step (fun node event => ordinary node event = true) ⟨.redis (.init 1), 0, [], []⟩ retried := by
    decide +kernel
  exact ⟨node, ran, handed, never_handed_over_early (.redis 1) (checked.imp fun _ _ _ => onTime_of_ordinary) ran⟩

/-- `Duration::MAX` -/
private def longest : Duration := (2 ^ 64 - 1) * 1000000000 + 999999999

/-- A retry after the longest `Duration` goes out at once from either store, and so does a
message for 2^63 ms after the epoch that passes through the index. -/
theorem far_deadlines_fire_at_once :
    (∃ node ∈ run DelayNode.step ⟨.inProcess .empty, 0, [], []⟩ [.retry 0 depot shipping parcel longest 3 0],
      ∃ handover ∈ node.handed, ¬ Punctual handover) ∧
    (∃ node ∈ run DelayNode.step ⟨.redis (.init 1), 0, [], []⟩ [.retry 0 depot shipping parcel longest 3 0],
      ∃ handover ∈ node.handed, ¬ Punctual handover) ∧
    ∃ node ∈ run DelayNode.step ⟨.redis (.init 1), 0, [], []⟩
        [.send 0 depot "shipping" { parcel with deliverAt := some (2 ^ 63 * 1000000) } none none, .command 0, .command 0,
          .finish 0, .fetch 0, .command 0, .command 0, .command 0, .command 0, .finish 0, .deliver 0 depot],
      ∃ handover ∈ node.handed, ¬ Punctual handover := by
  decide +kernel

end EventBase.Proofs.NeverEarly
