import EventBase.Proofs.Accepted
import EventBase.Proofs.RecoverySteps
import EventBase.WorkerRegistry

/-! The topic argument of `TopicRouter::send` against the topic of the copies that
reach the producer, at once or through the delay store. -/

namespace EventBase.Proofs.TopicArgument
open TaskLogic Accepted RecoverySteps TopicRouter WorkerRegistry

def handed : Effect → Option EMessage
  | .publish msg => some msg
  | _ => none

def Registered (registry : Table WorkerInfo) : Prop := ∃ changes, applyAll ∅ changes = registry

/-- The node may broadcast, and its producer takes what it is handed for the topic. -/
structure Takes (env : Env) (topic : String) : Prop where
  sends : ∀ call mode, env.sends call mode = none
  routes : ∀ table, env.routes = some table → topic ∈ table
  host : env.nodeType ≠ .worker

/-- The send of a delayed message: what the scheduler finds under its id, once it is due. -/
def Parks (env : Env) (topic : String) (msg : EMessage) (trySend : Option Bool) (timeout : Option Duration)
    (record : WalRecord) : Prop :=
  ∃ parked, .schedule parked ∈ (send env topic msg trySend timeout).outcome.1 ∧
    ∃ (store : DelayStore) (time : SystemTime), (store.schedule parked).Due time msg.id record

def cleared (msg : EMessage) : EMessage := { msg with deliverAt := none }

/-- One copy for each worker of the topic, under an id of its own. -/
structure Reaches (registry : Table WorkerInfo) (topic : String) (copies : List EMessage) : Prop where
  recipients : copies.map EMessage.toWorker = (getWorkers registry topic).map fun info => some info.workerName
  once : (copies.map EMessage.toWorker).Nodup
  ids : (copies.map EMessage.id).Nodup

structure Honours (topic : String) (msg : EMessage) : Prop where
  sent : ∀ env trySend timeout, ∀ copy ∈ (send env topic msg trySend timeout).outcome.1.filterMap handed,
    copy.topic = topic
  delayed : ∀ env trySend timeout record, Parks env topic msg trySend timeout record →
    ∀ later, ∀ copy ∈ (deliverDelayed later record).outcome.1.filterMap handed, copy.topic = topic
  fanned : msg.deliveryMode = .broadcast → msg.deliverAt = none → ∀ env, Takes env topic → Registered env.registry →
    ∀ trySend timeout,
      Reaches env.registry topic ((send env topic msg trySend timeout).outcome.1.filterMap handed)
  fannedLater : msg.deliveryMode = .broadcast → ∀ env trySend timeout record, Parks env topic msg trySend timeout record →
    ∀ later, Takes later topic → Registered later.registry →
      Reaches later.registry topic ((deliverDelayed later record).outcome.1.filterMap handed)

/-- The message names the topic itself, or it is sent at once to one queue. -/
def Addressed (topic : String) (msg : EMessage) : Prop :=
  msg.topic = topic ∨ msg.deliverAt = none ∧ msg.deliveryMode ≠ .broadcast

instance (topic : String) (msg : EMessage) : Decidable (Addressed topic msg) := inferInstanceAs (Decidable (_ ∨ _))

section
variable {registry : Table WorkerInfo}

theorem namedBy_insert {name info} (named : NamedBy registry) (key : info.workerName = name) :
    NamedBy (registry.insert name info) := by
  intro other found present
  obtain ⟨rfl, rfl⟩ | ⟨-, kept⟩ := Foundations.lookup_insert_cases present
  · exact key
  · exact named other found kept

theorem namedBy_apply (named : NamedBy registry) (call : RegistryCall) (clock : SystemTime) :
    NamedBy (apply call clock registry).1 := by
  cases call with
  | register info => exact namedBy_insert named rfl
  | unregister workerId =>
    intro other found present
    exact named other found (Foundations.lookup_erase_cases present).2
  | heartbeat workerId =>
    simp only [apply, heartbeat]
    split
    · next info present => exact namedBy_insert named (named workerId info present)
    · exact named
  | cleanupStale time timeout =>
    intro other found present
    simp only [apply, cleanupStale, Foundations.lookup_foldl_erase] at present
    split at present
    · cases present
    · exact named other found present

theorem Registered.named (registered : Registered registry) : NamedBy registry := by
  obtain ⟨changes, rfl⟩ := registered
  have start : NamedBy ∅ := fun _ _ present => by cases present
  revert start
  unfold applyAll
  generalize (∅ : Table WorkerInfo) = workers
  intro named
  induction changes generalizing workers with
  | nil => exact named
  | cons change rest ih => exact ih _ (namedBy_apply named change.call change.input)

theorem reaches_copies (registered : Registered registry) (topic : String) (msg : EMessage) :
    Reaches registry topic ((getWorkers registry topic).map (broadcastCopy msg)) := by
  have names := registered.named.names_nodup topic
  have recipients : ((getWorkers registry topic).map (broadcastCopy msg)).map EMessage.toWorker =
      (getWorkers registry topic).map fun info => some info.workerName := by
    rw [List.map_map]
    rfl
  refine ⟨recipients, ?_, ?_⟩
  · rw [recipients]
    have targets := names.map (Option.some_injective String)
    rwa [List.map_map] at targets
  · have ids := names.map (f := fun name => msg.id ++ "-" ++ name) fun first second same => (String.append_right_inj _).mp same
    rw [List.map_map] at ids ⊢
    exact ids

end

section
variable {env : Env} {topic : String} {msg : EMessage} {trySend : Option Bool} {timeout : Option Duration}

theorem hands_of_posts {task copies} (posts : Posts handed task 0 copies) :
    task.outcome.1.filterMap handed = copies :=
  Ends.outcome (show Ends handed task (· = copies) from posts.ends rfl)

theorem send_fans (sends : ∀ call mode, env.sends call mode = none) (routes : ∀ table, env.routes = some table → msg.topic ∈ table)
    (host : env.nodeType ≠ .worker) (broadcast : msg.deliveryMode = .broadcast) (immediate : msg.deliverAt = none) :
    (send env topic msg trySend timeout).outcome.1.filterMap handed =
      (getWorkers env.registry topic).map (broadcastCopy msg) := by
  apply hands_of_posts
  have undelayed : ¬ msg.deliverAt.isSome = true := by simp [immediate]
  unfold send
  rw [if_neg undelayed, if_pos broadcast, if_neg host]
  exact emitCopies_posts handed sends (fun _ => rfl) msg routes trySend timeout _

theorem send_single (sends : ∀ call mode, env.sends call mode = none) (routes : ∀ table, env.routes = some table → topic ∈ table)
    (single : msg.deliveryMode ≠ .broadcast) (immediate : msg.deliverAt = none) :
    (send env topic msg trySend timeout).outcome.1.filterMap handed = [{ msg with topic := topic }] := by
  apply hands_of_posts
  have undelayed : ¬ msg.deliverAt.isSome = true := by simp [immediate]
  unfold send
  rw [if_neg undelayed, if_neg single]
  exact routed_posts handed sends routes (sendMode env trySend timeout) _

theorem sent_topic {copy}
    (member : copy ∈ (send env topic msg trySend timeout).outcome.1.filterMap handed) :
    msg.deliverAt = none ∧ (msg.deliveryMode = .broadcast ∧ copy.topic = msg.topic ∨
      msg.deliveryMode ≠ .broadcast ∧ copy.topic = topic) := by
  have emits : EmitsOnly (fun effect => ∀ copy, handed effect = some copy → msg.deliverAt = none ∧
      (msg.deliveryMode = .broadcast ∧ copy.topic = msg.topic ∨ msg.deliveryMode ≠ .broadcast ∧ copy.topic = topic))
      (send env topic msg trySend timeout) := by
    apply EmitsOnly.send
    · intro _ copy shown
      cases shown
    · intro immediate mode info _ copy shown
      cases shown
      exact ⟨immediate, .inl ⟨mode, rfl⟩⟩
    · intro immediate mode copy shown
      cases shown
      exact ⟨immediate, .inr ⟨mode, rfl⟩⟩
  obtain ⟨effect, listed, shown⟩ := List.mem_filterMap.mp member
  exact Emits.outcome emits effect listed copy shown

theorem parked_message {parked}
    (listed : .schedule parked ∈ (send env topic msg trySend timeout).outcome.1) :
    msg.deliverAt.isSome = true ∧ parked = WalRecord.fromMsg msg := by
  have emits : EmitsOnly (fun effect => ∀ parked, effect = .schedule parked →
      msg.deliverAt.isSome = true ∧ parked = WalRecord.fromMsg msg) (send env topic msg trySend timeout) := by
    apply EmitsOnly.send
    · intro delayed parked same
      cases same
      exact ⟨delayed, rfl⟩
    · intro _ _ info _ parked same
      cases same
    · intro _ _ parked same
      cases same
  exact Emits.outcome emits _ listed parked rfl

theorem Parks.message {record} (parks : Parks env topic msg trySend timeout record) :
    msg.deliverAt.isSome = true ∧ record.message = msg := by
  obtain ⟨parked, listed, store, time, due⟩ := parks
  obtain ⟨delayed, rfl⟩ := parked_message listed
  have found : (store.schedule (WalRecord.fromMsg msg)).delays.lookup msg.id = some record := by
    cases store with
    | inProcess store => exact due.1
    | redis store => exact due.1
  obtain ⟨-, same⟩ | ⟨other, -⟩ := schedule_lookup found
  · exact ⟨delayed, same⟩
  · exact absurd rfl other

theorem Parks.hands {record} (parks : Parks env topic msg trySend timeout record) (later : Env) :
    (deliverDelayed later record).outcome.1.filterMap handed =
      (send later msg.topic (cleared msg) none none).outcome.1.filterMap handed := by
  unfold deliverDelayed
  rw [outcome_ignore, parks.message.2]
  rfl

theorem parks_of_delayed {deliverAt} (delayed : msg.deliverAt = some deliverAt) (wal : env.walAvailable = true)
    (accepts : env.schedules 0 = none) : ∃ record, Parks env topic msg trySend timeout record := by
  have parked : (send env topic msg trySend timeout).outcome.1 = [.schedule (WalRecord.fromMsg msg)] := by
    simp [send, delayed, wal, schedule_eq, TaskM.outcome, EStateM.run, Session.start, accepts]
  refine ⟨{ WalRecord.fromMsg msg with recordId := 1 }, WalRecord.fromMsg msg, ?_, .inProcess .empty, deliverAt, ?_, ?_⟩
  · rw [parked]
    exact List.mem_singleton_self _
  · exact AList.lookup_insert _
  · simp [WalRecord.due, WalRecord.fromMsg, delayed]

theorem honours_of_named (named : msg.topic = topic) : Honours topic msg where
  sent env trySend timeout copy member := by
    obtain ⟨-, ⟨-, same⟩ | ⟨-, same⟩⟩ := sent_topic member
    · exact same.trans named
    · exact same
  delayed env trySend timeout record parks later copy member := by
    rw [parks.hands] at member
    obtain ⟨-, ⟨-, same⟩ | ⟨-, same⟩⟩ := sent_topic member
    · exact same.trans named
    · exact same.trans named
  fanned broadcast immediate env takes registered trySend timeout := by
    rw [send_fans takes.sends (named ▸ takes.routes) takes.host broadcast immediate]
    exact reaches_copies registered topic msg
  fannedLater broadcast env trySend timeout record parks later takes registered := by
    have routes : ∀ table, later.routes = some table → (cleared msg).topic ∈ table := named ▸ takes.routes
    rw [parks.hands, send_fans takes.sends routes takes.host broadcast rfl, named]
    exact reaches_copies registered topic (cleared msg)

theorem honours_of_single (immediate : msg.deliverAt = none) (single : msg.deliveryMode ≠ .broadcast) :
    Honours topic msg where
  sent env trySend timeout copy member := by
    obtain ⟨-, ⟨mode, -⟩ | ⟨-, same⟩⟩ := sent_topic member
    · exact absurd mode single
    · exact same
  delayed env trySend timeout record parks := by
    have delayed := parks.message.1
    rw [immediate] at delayed
    cases delayed
  fanned broadcast := absurd broadcast single
  fannedLater broadcast := absurd broadcast single

end

/-- A node with one worker for the topic and a producer that takes everything. -/
private def staffed (topic : String) : Env where
  nodeType := .host
  registry := applyAll ∅ [⟨0, .register ⟨"w", topic, 0⟩, 0⟩]

private theorem getWorkers_staffed (topic : String) : getWorkers (staffed topic).registry topic = [⟨"w", topic, 0⟩] := by
  have values : Table.values (staffed topic).registry = [⟨"w", topic, 0⟩] := rfl
  rw [getWorkers, values]
  exact List.filter_cons_of_pos (by simp)

private theorem takes_staffed (topic other : String) : Takes (staffed topic) other where
  sends _ _ := rfl
  routes _ table := by cases table
  host worker := by cases worker

private theorem handed_staffed (topic : String) {msg} (immediate : msg.deliverAt = none) :
    ∃ copy ∈ (send (staffed topic) topic msg none none).outcome.1.filterMap handed,
      copy.topic = if msg.deliveryMode = .broadcast then msg.topic else topic := by
  obtain ⟨sends, routes, host⟩ := takes_staffed topic msg.topic
  by_cases broadcast : msg.deliveryMode = .broadcast
  · rw [send_fans sends routes host broadcast immediate, getWorkers_staffed, if_pos broadcast]
    exact ⟨_, List.mem_singleton_self _, rfl⟩
  · rw [send_single sends (takes_staffed topic topic).routes broadcast immediate, if_neg broadcast]
    exact ⟨_, List.mem_singleton_self _, rfl⟩

theorem addressed_of_honours {topic msg} (honours : Honours topic msg) : Addressed topic msg := by
  cases delayed : msg.deliverAt with
  | some deliverAt =>
    -- The scheduler sends under the stored topic, single or not.
    obtain ⟨record, parks⟩ : ∃ record, Parks (staffed topic) topic msg none none record := parks_of_delayed delayed rfl rfl
    obtain ⟨copy, listed, same⟩ := handed_staffed msg.topic (show (cleared msg).deliverAt = none from rfl)
    rw [← parks.hands] at listed
    have given := honours.delayed _ _ _ record parks _ copy listed
    left
    rw [← given, same]
    exact (ite_self _).symm
  | none =>
    by_cases broadcast : msg.deliveryMode = .broadcast
    · obtain ⟨copy, listed, same⟩ := handed_staffed topic delayed
      rw [if_pos broadcast] at same
      exact .inl (same.symm.trans (honours.sent _ _ _ copy listed))
    · exact .inr ⟨delayed, broadcast⟩

/-- For every topic argument and every message: the argument decides, whatever the
surroundings, if and only if the message names that topic itself or is sent at once
to one queue. -/
theorem topic_honoured_iff (topic : String) (msg : EMessage) : Honours topic msg ↔ Addressed topic msg := by
  constructor
  · exact addressed_of_honours
  · rintro (named | ⟨immediate, single⟩)
    · exact honours_of_named named
    · exact honours_of_single immediate single

private def order : EMessage := { EMessage.new "m" 0 "drafts" [] .standard none with deliverAt := some 5 }

/-- Sent to "orders" with a delay, the message is delivered to "drafts". -/
theorem delayed_topic_ignored : ∃ record, Parks (staffed "orders") "orders" order none none record ∧
    (deliverDelayed (staffed "orders") record).outcome.1 = [.publish { order with deliverAt := none }] ∧
      ¬ Honours "orders" order := by
  obtain ⟨record, parks⟩ : ∃ record, Parks (staffed "orders") "orders" order none none record := parks_of_delayed rfl rfl rfl
  have sent : (deliverDelayed (staffed "orders") record).outcome.1 = [.publish { order with deliverAt := none }] := by
    unfold deliverDelayed
    rw [outcome_ignore, parks.message.2]
    rfl
  refine ⟨record, parks, sent, fun honours => ?_⟩
  have given := honours.delayed _ _ _ record parks (staffed "orders") { order with deliverAt := none } (by rw [sent]; decide)
  exact absurd given (by decide)

end EventBase.Proofs.TopicArgument
