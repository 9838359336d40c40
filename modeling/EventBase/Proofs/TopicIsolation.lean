import EventBase.Foundations.AssocList
import EventBase.Foundations.Run
import EventBase.Proofs.QueueSteps
import EventBase.SharedFactory

/-! What the consumers of one topic can be given by a factory whose queues share a
channel: only that topic's messages exactly when nothing else is in circulation. -/

namespace EventBase.Proofs.TopicIsolation
open Foundations QueueSteps List Option SharedFactory QueueReply

section
variable {α : Type} {config : QueueConfig} {property : α → Prop} {queue next : MemoryQueue α}

/-- Every message in the channel has the property, and so has every claim that can
still be given back. -/
structure Carries (property : α → Prop) (queue : MemoryQueue α) : Prop where
  channel : ∀ msg ∈ queue.channel, property msg
  claims : queue.disconnected = false → ∀ table ∈ queue.pending, ∀ claimId msg, table.lookup claimId = some msg →
    property msg

namespace Carries

theorem accept (carries : Carries property queue) {msg} (new : property msg) : Carries property (queue.accept msg) := by
  refine ⟨fun other member => ?_, carries.claims⟩
  rcases mem_append.mp member with old | last
  · exact carries.channel other old
  · exact mem_singleton.mp last ▸ new

theorem create (carries : Carries property queue) :
    Carries property { queue with pending := queue.pending ++ [∅] } := by
  refine ⟨carries.channel, fun connected table member claimId msg claimed => ?_⟩
  rcases mem_append.mp member with old | new
  · exact carries.claims connected table old claimId msg claimed
  · rw [mem_singleton.mp new] at claimed
    cases claimed

theorem erase (carries : Carries property queue) {consumer table} (claimId : String)
    (found : queue.pending[consumer]? = some table) (connected : queue.disconnected = false) :
    ∀ other ∈ queue.pending.set consumer (table.erase claimId), ∀ id msg, other.lookup id = some msg → property msg := by
  intro other member id msg claimed
  rcases mem_or_eq_of_mem_set member with old | rfl
  · exact carries.claims connected other old id msg claimed
  · exact carries.claims connected table (mem_of_getElem? found) id msg (lookup_erase_cases claimed).2

theorem take (carries : Carries property queue) {consumer table msg rest}
    (found : queue.pending[consumer]? = some table) (channel : queue.channel = msg :: rest) :
    Carries property (queue.take config consumer table msg rest).2 := by
  refine ⟨fun other member => carries.channel other (channel ▸ mem_cons_of_mem _ member), ?_⟩
  intro connected other member claimId held claimed
  rcases mem_or_eq_of_mem_set member with old | rfl
  · exact carries.claims connected other old claimId held claimed
  · obtain ⟨_, rfl⟩ | ⟨_, old⟩ := lookup_insert_cases claimed
    · exact carries.channel held (channel ▸ mem_cons_self)
    · exact carries.claims connected table (mem_of_getElem? found) claimId held old

theorem takes (carries : Carries property queue) {consumer claims}
    (takes : Takes config consumer queue claims next) :
    Carries property next ∧ ∀ claimed ∈ claims, property claimed.message := by
  induction takes with
  | done => exact ⟨carries, fun _ member => by cases member⟩
  | take found channel _ ih =>
    obtain ⟨kept, later⟩ := ih (carries.take found channel)
    refine ⟨kept, fun claimed member => ?_⟩
    rcases mem_cons.mp member with rfl | other
    · exact carries.channel _ (channel ▸ mem_cons_self)
    · exact later claimed other

theorem move (carries : Carries property queue) {call reply}
    (move : Move config queue call reply next) (brings : ∀ msg, call = .send msg ∨ call = .trySend msg → property msg) :
    Carries property next ∧ ∀ msg ∈ reply.messages, property msg := by
  cases move with
  | create => exact ⟨carries.create, by simp [messages]⟩
  | accept offered => exact ⟨carries.accept (brings _ offered), by simp [messages]⟩
  | refuse | receiveNone | claimNone => exact ⟨carries, by simp [messages]⟩
  | receive channel =>
    refine ⟨⟨fun msg member => carries.channel msg (channel ▸ mem_cons_of_mem _ member), carries.claims⟩, ?_⟩
    intro msg member
    simp only [messages, toList_some, mem_singleton] at member
    exact carries.channel msg (by rw [member, channel]; exact mem_cons_self)
  | claim takes | claimBatch takes =>
    obtain ⟨kept, each⟩ := carries.takes takes
    exact ⟨kept, by simpa [messages] using each⟩
  | ack found => exact ⟨⟨carries.channel, carries.erase _ found⟩, by simp [messages]⟩
  | nack found claimed connected =>
    refine ⟨⟨fun msg member => ?_, carries.erase _ found⟩, by simp [messages]⟩
    rcases mem_append.mp member with old | last
    · exact carries.channel msg old
    · rw [mem_singleton.mp last]
      exact carries.claims connected _ (mem_of_getElem? found) _ _ claimed

end Carries

end

/-- What the consumers created for a topic gave out was sent for that topic. -/
def Isolated (topic : String) (factory : SharedFactory) : Prop :=
  ∀ parcel, (some topic, parcel) ∈ factory.yielded → parcel.topic = topic

def CarriesOnly (topic : String) (factory : SharedFactory) : Prop :=
  Carries (fun parcel : Parcel => parcel.topic = topic) factory.queue

def SendsFor (topic : String) (factory : SharedFactory) : FactoryCall → Prop
  | .send producer msg | .trySend producer msg => factory.label msg producer = some topic
  | _ => True

instance (topic : String) (factory : SharedFactory) : ∀ call, Decidable (SendsFor topic factory call)
  | .send producer msg | .trySend producer msg => inferInstanceAs (Decidable (factory.label msg producer = some topic))
  | .createQueue _ | .createConsumer _ | .createMainConsumer | .consume _ => isTrue trivial

section
variable {config : QueueConfig} {topic : String} {factory next : SharedFactory}

private theorem send_keeps {msg producer} {offer : Parcel → QueueCall Parcel}
    (offers : offer = .send ∨ offer = .trySend) (labelled : factory.label msg producer = some topic)
    (carries : CarriesOnly topic factory) (stepped : ((factory.label msg producer).bind fun topic =>
      (factory.queue.step config (offer ⟨msg, topic⟩)).map fun queue => { factory with queue := queue }) = some next) :
    CarriesOnly topic next ∧ next.yielded = factory.yielded := by
  rw [labelled, bind_some] at stepped
  obtain ⟨queue, sent, rfl⟩ := map_eq_some_iff.mp stepped
  obtain ⟨⟨_, _⟩, answered, rfl⟩ := map_eq_some_iff.mp sent
  refine ⟨(Carries.move carries (call_moves answered) fun parcel offered => ?_).1, rfl⟩
  obtain rfl | rfl := offers
  all_goals
    rcases offered with same | same <;> cases same
    rfl

theorem consume_cases {call} (stepped : factory.step config (.consume call) = some next) :
    ∃ consumer owner reply queue, call.consumer = some consumer ∧ factory.owners[consumer]? = some owner ∧
      factory.queue.call config call = some (reply, queue) ∧
      next = { factory with queue := queue, yielded := factory.yielded ++ reply.messages.map (owner, ·) } := by
  obtain ⟨consumer, called, rest⟩ := bind_eq_some_iff.mp stepped
  obtain ⟨owner, owned, rest⟩ := bind_eq_some_iff.mp rest
  obtain ⟨⟨reply, queue⟩, answered, rfl⟩ := map_eq_some_iff.mp rest
  exact ⟨consumer, owner, reply, queue, called, owned, answered, rfl⟩

theorem step_keeps {call : FactoryCall} (sends : SendsFor topic factory call) (carries : CarriesOnly topic factory)
    (isolated : Isolated topic factory) (stepped : factory.step config call = some next) :
    CarriesOnly topic next ∧ Isolated topic next := by
  have quiet : CarriesOnly topic next ∧ next.yielded = factory.yielded → CarriesOnly topic next ∧ Isolated topic next := by
    rintro ⟨kept, same⟩
    exact ⟨kept, fun parcel member => isolated parcel (same ▸ member)⟩
  cases call with
  | createQueue topic =>
    cases stepped
    exact ⟨carries, isolated⟩
  | createConsumer queue =>
    obtain ⟨_, _, rfl⟩ := map_eq_some_iff.mp stepped
    exact ⟨Carries.create carries, isolated⟩
  | createMainConsumer =>
    cases stepped
    exact ⟨Carries.create carries, isolated⟩
  | send producer msg =>
    exact quiet (send_keeps (.inl rfl) sends carries stepped)
  | trySend producer msg =>
    exact quiet (send_keeps (.inr rfl) sends carries stepped)
  | consume call =>
    obtain ⟨consumer, owner, reply, queue, called, _, answered, rfl⟩ := consume_cases stepped
    obtain ⟨kept, each⟩ := Carries.move carries (call_moves answered) fun parcel offered => by
      rcases offered with rfl | rfl <;> cases called
    refine ⟨kept, fun parcel member => ?_⟩
    rcases mem_append.mp member with old | new
    · exact isolated parcel old
    · obtain ⟨handed, given, same⟩ := mem_map.mp new
      cases same
      exact each parcel given

theorem run_keeps {calls} (sends : Along (step config) (SendsFor topic) factory calls)
    (carries : CarriesOnly topic factory) (isolated : Isolated topic factory)
    (ran : run (step config) factory calls = some next) : CarriesOnly topic next ∧ Isolated topic next :=
  run_invariant (fun factory => CarriesOnly topic factory ∧ Isolated topic factory)
    (fun sends kept stepped => step_keeps sends kept.1 kept.2 stepped) sends ⟨carries, isolated⟩ ran

end

def Paired (factory : SharedFactory) : Prop := factory.owners.length = factory.queue.pending.length

theorem takes_pending {α : Type} {config} {queue next : MemoryQueue α} {consumer : Nat}
    {claims : List (ClaimedMessage α)} (takes : Takes config consumer queue claims next) :
    next.pending.length = queue.pending.length := by
  induction takes with
  | done => rfl
  | take _ _ _ ih => rw [ih, MemoryQueue.take, length_set]

theorem move_pending {α : Type} {config} {queue next : MemoryQueue α} {call reply}
    (move : Move config queue call reply next) (kept : call ≠ .createConsumer) :
    next.pending.length = queue.pending.length := by
  cases move with
  | create => exact absurd rfl kept
  | accept | refuse | receive | receiveNone | claimNone => rfl
  | claim takes | claimBatch takes => exact takes_pending takes
  | ack | nack => exact length_set

section
variable {config : QueueConfig} {factory next : SharedFactory}

theorem Paired.send {msg producer} {offer : Parcel → QueueCall Parcel}
    (offers : ∀ parcel, offer parcel ≠ .createConsumer) (paired : Paired factory)
    (stepped : ((factory.label msg producer).bind fun topic =>
      (factory.queue.step config (offer ⟨msg, topic⟩)).map fun queue => { factory with queue := queue }) = some next) :
    Paired next := by
  obtain ⟨_, _, rest⟩ := bind_eq_some_iff.mp stepped
  obtain ⟨queue, sent, rfl⟩ := map_eq_some_iff.mp rest
  obtain ⟨⟨_, _⟩, answered, rfl⟩ := map_eq_some_iff.mp sent
  exact paired.trans (move_pending (call_moves answered) (offers _)).symm

theorem Paired.step {call : FactoryCall} (paired : Paired factory) (stepped : factory.step config call = some next) :
    Paired next := by
  cases call with
  | createQueue topic =>
    cases stepped
    exact paired
  | createConsumer queue =>
    obtain ⟨_, _, rfl⟩ := map_eq_some_iff.mp stepped
    simpa [Paired, addConsumer] using paired
  | createMainConsumer =>
    cases stepped
    simpa [Paired, addConsumer] using paired
  | send producer msg => exact paired.send (fun _ => by simp) stepped
  | trySend producer msg => exact paired.send (fun _ => by simp) stepped
  | consume call =>
    obtain ⟨consumer, owner, reply, queue, called, _, answered, rfl⟩ := consume_cases stepped
    refine paired.trans (move_pending (call_moves answered) ?_).symm
    rintro rfl
    cases called

end

theorem isFull_zero (config : QueueConfig) : config.isFull 0 = false := by
  have bounded := config.bounded
  cases backend : config.backend with
  | flume =>
    simp only [QueueConfig.isFull, backend, Bool.and_eq_false_iff, decide_eq_false_iff_not]
    omega
  | mpmc | crossfire =>
    have positive := bounded (by rw [backend]; decide)
    simp only [QueueConfig.isFull, backend, decide_eq_false_iff_not]
    omega

section
variable {config : QueueConfig} {factory : SharedFactory} {consumer : Nat} {owner : Option String}

theorem consume_receive {parcel rest} (channel : factory.queue.channel = parcel :: rest)
    (owned : factory.owners[consumer]? = some owner) (inside : consumer < factory.queue.pending.length) :
    factory.step config (.consume (.receive consumer)) =
      some { factory with
        queue := { factory.queue with channel := rest, received := factory.queue.received ++ [parcel] }
        yielded := factory.yielded ++ [(owner, parcel)] } := by
  simp [step, QueueCall.consumer, owned, MemoryQueue.call, inside, MemoryQueue.receive, channel,
    messages]

theorem drained (config : QueueConfig) (factory : SharedFactory) {parcels} (channel : factory.queue.channel = parcels)
    (owned : factory.owners[consumer]? = some owner) (inside : consumer < factory.queue.pending.length) :
    ∃ final, run (step config) factory
        ((List.replicate parcels.length (.receive consumer)).map .consume) = some final ∧
      final.queue.channel = [] ∧ final.queue.pending = factory.queue.pending ∧
      final.queue.disconnected = factory.queue.disconnected ∧ final.owners = factory.owners ∧
      final.yielded = factory.yielded ++ parcels.map (owner, ·) := by
  induction parcels generalizing factory with
  | nil => exact ⟨factory, rfl, channel, rfl, rfl, rfl, by simp⟩
  | cons parcel rest ih =>
    obtain ⟨final, ran, empty, pending, connected, owners, yielded⟩ := ih
      { factory with
        queue := { factory.queue with channel := rest, received := factory.queue.received ++ [parcel] }
        yielded := factory.yielded ++ [(owner, parcel)] } rfl owned inside
    refine ⟨final, ?_, empty, pending, connected, owners, by rw [yielded]; simp⟩
    simp only [length_cons, replicate_succ, map_cons, run, consume_receive channel owned inside,
      bind_some]
    exact ran

theorem consume_nack {parcel table claimId} (channel : factory.queue.channel = [])
    (connected : factory.queue.disconnected = false) (owned : factory.owners[consumer]? = some owner)
    (found : factory.queue.pending[consumer]? = some table) (claimed : table.lookup claimId = some parcel) :
    factory.step config (.consume (.nack consumer claimId)) =
      some { factory with
        queue := { factory.queue with
          channel := [parcel], pending := factory.queue.pending.set consumer (table.erase claimId) } } := by
  simp [step, QueueCall.consumer, owned, MemoryQueue.call, found, MemoryQueue.nack, claimed, connected, channel,
    isFull_zero, messages]

end

section
variable {config : QueueConfig} {factory : SharedFactory} {topic : String} {consumer : Nat}

/-- Whatever the consumers do from now on, those of the topic get nothing else. -/
def StaysIsolated (config : QueueConfig) (topic : String) (factory : SharedFactory) : Prop :=
  ∀ (calls : List (QueueCall Parcel)) (final : SharedFactory),
    run (step config) { factory with yielded := [] } (calls.map .consume) = some final → Isolated topic final

theorem CarriesOnly.stays (carries : CarriesOnly topic factory) : StaysIsolated config topic factory := by
  intro calls final ran
  have emptied : CarriesOnly topic { factory with yielded := [] } := carries
  refine (run_keeps ?_ emptied (fun _ member => by cases member) ran).2
  refine along_of_prefixes fun before call rest reached split _ => ?_
  have member : call ∈ calls.map FactoryCall.consume := split ▸ mem_append_right _ mem_cons_self
  obtain ⟨consumed, _, rfl⟩ := mem_map.mp member
  trivial

theorem StaysIsolated.carries (isolated : StaysIsolated config topic factory) (paired : Paired factory)
    (owned : factory.owners[consumer]? = some (some topic)) : CarriesOnly topic factory := by
  have inside : consumer < factory.queue.pending.length := paired ▸ (List.getElem?_eq_some_iff.mp owned).1
  obtain ⟨empty, ran, channel, pending, connected, owners, yielded⟩ :=
    drained config { factory with yielded := [] } rfl owned inside
  refine ⟨fun parcel member => ?_, fun connects table member claimId parcel claimed => ?_⟩
  · refine isolated _ empty ran parcel ?_
    rw [yielded]
    exact mem_append_right _ (mem_map_of_mem member)
  · obtain ⟨holder, found⟩ := getElem?_of_mem member
    have holding : holder < empty.owners.length :=
      owners ▸ paired.symm ▸ (List.getElem?_eq_some_iff.mp found).1
    have nacked := @consume_nack config empty holder _ parcel table claimId channel (connected.trans connects)
      (getElem?_eq_getElem holding) (pending ▸ found) claimed
    have received := @consume_receive config { empty with queue := { empty.queue with
        channel := [parcel], pending := empty.queue.pending.set holder (table.erase claimId) } }
      consumer (some topic) parcel [] rfl (owners ▸ owned) (by rw [length_set, pending]; exact inside)
    have reached := isolated (List.replicate factory.queue.channel.length (.receive consumer) ++
      [.nack holder claimId, .receive consumer]) { empty with
        queue := { empty.queue with
          channel := []
          received := empty.queue.received ++ [parcel]
          pending := empty.queue.pending.set holder (table.erase claimId) }
        yielded := empty.yielded ++ [(some topic, parcel)] } (by
      rw [map_append, run_append, ran, bind_some]
      simp only [map_cons, map_nil, run, nacked, received, bind_some])
    exact reached parcel (mem_append_right _ mem_cons_self)

end

/-- A factory that only serves one topic keeps it to itself; at any moment the
consumers of a topic are safe from other topics exactly when nothing else is in
the channel or claimed. -/
theorem isolated_iff_single_topic {config : QueueConfig} {calls : List FactoryCall} {disconnected : Bool}
    {factory : SharedFactory} {topic : String}
    (ran : run (SharedFactory.step config) { queue := { disconnected } } calls = some factory) :
    (Along (SharedFactory.step config) (SendsFor topic) { queue := { disconnected } } calls → Isolated topic factory) ∧
      ∀ consumer : Nat, factory.owners[consumer]? = some (some topic) →
        (StaysIsolated config topic factory ↔ CarriesOnly topic factory) := by
  refine ⟨fun sends => ?_, fun consumer owned => ⟨fun isolated => ?_, CarriesOnly.stays⟩⟩
  · refine (run_keeps sends ⟨?_, ?_⟩ ?_ ran).2
    · intro _ member
      cases member
    · intro _ _ member
      cases member
    · intro _ member
      cases member
  · have paired : Paired { queue := { disconnected } } := rfl
    exact isolated.carries (run_preserves Paired Paired.step paired ran) owned

private def channelOf (backend : QueueBackend) : QueueConfig where
  backend := backend
  capacity := 8
  uuid made := String.ofList (List.replicate made 'c')
  clock _ := 0
  closedText := "closed"
  bounded _ := by decide

private def message (topic : String) : EMessage := EMessage.new "m" 0 topic [] .standard none

private def twoTopics : List FactoryCall :=
  [.createQueue "orders", .createQueue "mails", .createConsumer 0, .createConsumer 1, .send none (message "mails"),
    .send (some 1) (message "mails"), .consume (.receive 0), .consume (.claimBatch 0 4)]

/-- The consumer made for the orders is given mails, by either factory. -/
theorem orders_consumer_gets_mails :
    (∃ factory ∈ run (SharedFactory.step (channelOf .flume)) {} twoTopics,
      factory.yielded.map (fun entry => (entry.1, entry.2.topic)) =
        [(some "orders", "mails"), (some "orders", "mails")]) ∧
      ∃ factory ∈ run (SharedFactory.step (channelOf .mpmc)) {} twoTopics,
        factory.yielded.map (fun entry => (entry.1, entry.2.topic)) =
          [(some "orders", "mails"), (some "orders", "mails")] := by
  constructor <;> decide +kernel

private def oneTopic : List FactoryCall :=
  [.createQueue "orders", .createConsumer 0, .send (some 0) (message "orders"), .send none (message "orders"),
    .consume (.claim 0)]

theorem orders_stay_isolated :
    ∃ factory ∈ run (SharedFactory.step (channelOf .flume)) {} oneTopic,
      Isolated "orders" factory ∧ (StaysIsolated (channelOf .flume) "orders" factory ↔ CarriesOnly "orders" factory) := by
  obtain ⟨factory, ran, owned⟩ : ∃ factory ∈ run (step (channelOf .flume)) {} oneTopic,
      factory.owners[0]? = some (some "orders") := by decide +kernel
  obtain ⟨isolated, stays⟩ := @isolated_iff_single_topic _ _ false _ "orders" ran
  exact ⟨factory, ran, isolated (by decide +kernel), stays 0 owned⟩

end EventBase.Proofs.TopicIsolation
