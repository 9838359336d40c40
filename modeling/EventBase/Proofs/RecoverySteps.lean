import EventBase.Proofs.TaskLogic
import EventBase.Proofs.WalInterchange
import EventBase.Recovery

/-! What one step of a recovery can do: a replayed record is scheduled again or sent,
a pass of the scheduler fetches what has come due, and a fetched record is sent. -/

namespace EventBase.Proofs.RecoverySteps
open Foundations TaskLogic WalInterchange List AList

def Carries (msg : EMessage) (id : String) : Prop :=
  match msg.deliveryMode with
  | .broadcast => ∃ name, id = msg.id ++ "-" ++ name
  | _ => id = msg.id

theorem carries_something (msg : EMessage) : ∃ id, Carries msg id := by
  unfold Carries
  split
  · exact ⟨_, "w", rfl⟩
  · exact ⟨_, rfl⟩

def NamedBy (registry : Table WorkerInfo) : Prop := ∀ name info, registry.lookup name = some info → info.workerName = name

theorem NamedBy.names_nodup {registry} (named : NamedBy registry) (topic : String) :
    ((getWorkers registry topic).map WorkerInfo.workerName).Nodup := by
  have keys : (Table.values registry).map WorkerInfo.workerName = registry.keys := by
    rw [Table.values, map_map, AList.keys, List.keys]
    refine map_congr_left fun entry member => ?_
    exact named entry.1 entry.2 (mem_lookup_iff.mpr member)
  have distinct : ((Table.values registry).map WorkerInfo.workerName).Nodup := keys ▸ registry.keys_nodup
  exact distinct.sublist (List.Sublist.map _ filter_sublist)

/-- A send without a deadline publishes the message, at most once under each of its ids. -/
def Publishes (msg : EMessage) (added : List Effect) : Prop :=
  ∃ messages : List EMessage, added = messages.map .publish ∧ (∀ message ∈ messages, Carries msg message.id) ∧
    (messages.map EMessage.id).Nodup

theorem Publishes.nothing (msg : EMessage) : Publishes msg [] := ⟨[], rfl, by simp, by simp⟩

section
variable {env : Env}

theorem emitCopies_reaches (msg : EMessage) (workers : List WorkerInfo) :
    Emits (emitCopies env msg none none workers) fun added _ =>
      ∃ reached : List WorkerInfo, reached.Sublist workers ∧ added = (reached.map (broadcastCopy msg)).map .publish := by
  induction workers with
  | nil => exact .pure () ⟨[], .refl _, rfl⟩
  | cons info rest ih =>
    refine .bind (routed_emits env (fun _ _ => ?_) ?_ fun _ => ⟨[], nil_sublist _, rfl⟩)
    · refine ih.weaken ?_
      rintro _ _ ⟨reached, part, rfl⟩
      exact ⟨info :: reached, part.cons_cons info, rfl⟩
    · refine ih.weaken ?_
      rintro _ _ ⟨reached, part, rfl⟩
      exact ⟨reached, part.cons info, rfl⟩

theorem send_publishes (named : NamedBy env.registry) (topic : String) {msg} (immediate : msg.deliverAt = none) :
    Emits (TopicRouter.send env topic msg none none) fun added _ => Publishes msg added := by
  unfold TopicRouter.send
  refine .cond (fun delayed => by simp [immediate] at delayed) fun _ => .cond (fun mode => ?_) fun mode => ?_
  · refine .cond (fun _ => .throw _ (.nothing msg)) fun _ => (emitCopies_reaches msg _).weaken ?_
    rintro _ _ ⟨reached, part, rfl⟩
    have names := (named.names_nodup topic).sublist (part.map WorkerInfo.workerName)
    refine ⟨_, rfl, fun message member => ?_, ?_⟩
    · obtain ⟨info, _, rfl⟩ := mem_map.mp member
      rw [Carries, mode]
      exact ⟨info.workerName, rfl⟩
    · have ids : (reached.map (broadcastCopy msg)).map EMessage.id =
          (reached.map WorkerInfo.workerName).map (fun name => msg.id ++ "-" ++ name) := by
        simp [map_map, broadcastCopy, Function.comp_def]
      rw [ids]
      refine names.map fun first second same => ?_
      exact (String.append_right_inj _).mp same
  · refine routed_emits env (fun _ _ => ?_) (.nothing msg) fun _ => .nothing msg
    refine ⟨[_], rfl, fun message member => ?_, by simp⟩
    rw [mem_singleton.mp member, Carries]
    split
    · next broadcast => exact absurd broadcast mode
    · rfl

theorem deliverDelayed_publishes (env : Env) (named : NamedBy env.registry) (record : WalRecord) :
    Emits (deliverDelayed env record) fun added _ => Publishes record.message added :=
  (send_publishes named record.message.topic (by rfl)).ignore

theorem isFuture_emits {msg post} (holds : ∀ future, post [] (.ok future)) : Emits (isFuture env msg) post := by
  unfold isFuture
  split
  · exact .bind (now_emits env fun _ => .pure _ (holds _))
  · exact .pure _ (holds _)

theorem replayRecord_only {allowed} (summary : ReplaySummary) {record}
    (schedules : allowed (.schedule (WalRecord.fromMsg record.message))) (sends : EmitsOnly allowed
      (TopicRouter.send env record.message.topic { record.message with deliverAt := none } none none)) :
    EmitsOnly allowed (TopicRouter.replayRecord env summary record) := by
  refine .bind (isFuture_emits fun _ => by simp) fun future => .cond (fun _ => ?_) fun _ => ?_
  · exact (EmitsOnly.schedule env schedules).bind fun _ => .pure _
  · have sent := sends.bind fun _ => .pure { summary with recovered := summary.recovered + 1 }
    refine Emits.recover (Emits.weaken sent ?_)
    intro added result each
    cases result with
    | ok value => exact each
    | error error => exact each

theorem replayRecord_emits (env : Env) (named : NamedBy env.registry) (summary : ReplaySummary) (record : WalRecord) :
    Emits (TopicRouter.replayRecord env summary record) fun added _ =>
      added = [.schedule (WalRecord.fromMsg record.message)] ∨ Publishes record.message added := by
  refine .bind (isFuture_emits fun future => .cond (fun _ => ?_) fun _ => ?_)
  · exact .bind (schedule_emits env (fun _ _ => .pure _ (.inl rfl)) fun _ _ _ => .inr (.nothing _))
  · refine .recover (.bind ((send_publishes named record.message.topic (by rfl)).weaken ?_))
    intro added result publishes
    have published : Publishes record.message added := publishes
    cases result with
    | ok value => exact .pure _ (.inr (by simpa using published))
    | error error => exact .inr published

end

section
variable {store : DelayStore} {record entry : WalRecord} {id : String} {now : SystemTime}

theorem schedule_lookup (found : (store.schedule record).delays.lookup id = some entry) :
    (id = record.message.id ∧ entry.message = record.message) ∨
      (id ≠ record.message.id ∧ store.delays.lookup id = some entry) := by
  cases store with
  | inProcess store =>
    obtain ⟨rfl, rfl⟩ | ⟨other, kept⟩ := lookup_insert_cases found
    · exact .inl ⟨rfl, rfl⟩
    · exact .inr ⟨other, kept⟩
  | redis store =>
    obtain ⟨rfl, rfl⟩ | ⟨other, kept⟩ := lookup_insert_cases found
    · exact .inl ⟨rfl, rfl⟩
    · exact .inr ⟨other, kept⟩

theorem mem_values_iff {table : Table WalRecord} {record} :
    record ∈ Table.values table ↔ ∃ id, table.lookup id = some record := by
  constructor
  · intro member
    obtain ⟨⟨id, _⟩, listed, rfl⟩ := mem_map.mp member
    exact ⟨id, mem_lookup_iff.mpr listed⟩
  · rintro ⟨id, found⟩
    exact mem_map.mpr ⟨⟨id, record⟩, mem_lookup_iff.mp found, rfl⟩

def dueKeys (now : SystemTime) : DelayStore → List String
  | .inProcess store => keysWhere store.delays (WalRecord.due now)
  | .redis store => store.dueIds now

theorem nodup_dueKeys (now : SystemTime) (store : DelayStore) : (dueKeys now store).Nodup := by
  cases store with
  | inProcess store => exact nodup_keysWhere store.delays _
  | redis store => exact nodup_keysWhere store.delayIndex fun indexed => indexed ≤ score (nowMillis now)

theorem fetchReady_records (now : SystemTime) (store : DelayStore) :
    (store.fetchReady now).1 = (dueKeys now store).filterMap fun id => store.delays.lookup id := by
  cases store with
  | inProcess store => simp only [DelayStore.fetchReady, file_fetchReady, dueKeys, DelayStore.delays]
  | redis store => simp only [DelayStore.fetchReady, redis_fetchReady, dueKeys, DelayStore.delays]

theorem fetchReady_lookup (now : SystemTime) (store : DelayStore) (id : String) :
    (store.fetchReady now).2.delays.lookup id = if id ∈ dueKeys now store then none else store.delays.lookup id := by
  cases store with
  | inProcess store =>
    simp only [DelayStore.fetchReady, file_fetchReady, dueKeys, DelayStore.delays, lookup_foldl_erase]
    congr
  | redis store =>
    simp only [DelayStore.fetchReady, redis_fetchReady, dueKeys, DelayStore.delays, lookup_foldl_erase]
    congr

def Fires (now : SystemTime) (record : WalRecord) : DelayStore → Prop
  | .inProcess _ => record.due now = true
  | .redis _ => score (deliverAtMillis record) ≤ score (nowMillis now)

def Indexed : DelayStore → Prop
  | .inProcess _ => True
  | .redis store => ∀ id, store.delayIndex.lookup id = (store.delays.lookup id).map fun record => score (deliverAtMillis record)

theorem mem_dueKeys (indexed : Indexed store) (found : store.delays.lookup id = some entry) :
    id ∈ dueKeys now store ↔ Fires now entry store := by
  cases store with
  | inProcess store =>
    have found : store.delays.lookup id = some entry := found
    simp [dueKeys, Fires, mem_keysWhere, found]
  | redis store =>
    have found : store.delays.lookup id = some entry := found
    have listed : store.delayIndex.lookup id = some (score (deliverAtMillis entry)) := by rw [indexed id, found]; rfl
    simp [dueKeys, Fires, RedisWal.dueIds, mem_keysWhere, listed]

@[simp] theorem fires_schedule : Fires now entry (store.schedule record) ↔ Fires now entry store := by
  cases store <;> exact Iff.rfl

@[simp] theorem fires_fetchReady {time} : Fires now entry (store.fetchReady time).2 ↔ Fires now entry store := by
  cases store <;> exact Iff.rfl

theorem Indexed.schedule (indexed : Indexed store) (record : WalRecord) : Indexed (store.schedule record) := by
  cases store with
  | inProcess store => trivial
  | redis store =>
    intro id
    by_cases same : id = record.message.id
    · subst same
      simp [RedisWal.schedule, deliverAtMillis]
    · simp only [RedisWal.schedule, lookup_insert_ne same, indexed id]

theorem Indexed.fetchReady (indexed : Indexed store) (now : SystemTime) : Indexed (store.fetchReady now).2 := by
  cases store with
  | inProcess store => trivial
  | redis store =>
    intro id
    simp only [redis_fetchReady, lookup_foldl_erase]
    split
    · rfl
    · exact indexed id

end

/-- The steps of a recovery. A replay that gives up drops the records it had not come to. -/
inductive Move (state : Recovery) : RecoveryEvent → Recovery → Prop
  | tick {now} (later : state.clock ≤ now) : Move state (.tick now) { state with clock := now }
  | postpone {env record rest left summary}
    (next : state.pending = record :: rest) (part : left.Sublist rest) :
    Move state (.replay env)
      { state with pending := left, summary, store := state.store.schedule (WalRecord.fromMsg record.message) }
  | resend {env record rest left summary} {messages : List EMessage}
    (next : state.pending = record :: rest) (part : left.Sublist rest)
    (carried : ∀ message ∈ messages, Carries record.message message.id) (distinct : (messages.map EMessage.id).Nodup) :
    Move state (.replay env)
      { state with pending := left, summary, delivered := state.delivered ++ messages.map fun message => (message, state.clock) }
  | fetch (replayed : state.pending = []) (sent : state.fetched = []) :
    Move state .fetch
      { state with store := (state.store.fetchReady state.clock).2, fetched := (state.store.fetchReady state.clock).1 }
  | deliver {env record rest} {messages : List EMessage}
    (next : state.fetched = record :: rest) (carried : ∀ message ∈ messages, Carries record.message message.id)
    (distinct : (messages.map EMessage.id).Nodup) :
    Move state (.deliver env)
      { state with fetched := rest, delivered := state.delivered ++ messages.map fun message => (message, state.clock) }

def Named : RecoveryEvent → Prop
  | .replay env | .deliver env => NamedBy env.registry
  | _ => True

@[simp] theorem apply_publishes (state : Recovery) (messages : List EMessage) :
    state.apply (messages.map .publish) =
      { state with delivered := state.delivered ++ messages.map fun message => (message, state.clock) } := by
  induction messages generalizing state with
  | nil => simp [Recovery.apply]
  | cons message rest ih =>
    rw [map_cons, Recovery.apply, ih]
    simp

theorem step_moves {state next event} (named : Named event) (stepped : state.step event = some next) :
    Move state event next := by
  cases event with
  | tick now =>
    simp only [Recovery.step] at stepped
    split at stepped
    · next later =>
      cases stepped
      exact .tick later
    · cases stepped
  | replay env =>
    simp only [Recovery.step] at stepped
    split at stepped
    · cases stepped
    · next record rest pending =>
      have emitted := (replayRecord_emits (state.read env) named state.summary record).outcome
      have moves : ∀ left summary, left.Sublist rest →
          Move state (.replay env) (Recovery.apply { state with pending := left, summary }
            (TopicRouter.replayRecord (state.read env) state.summary record).outcome.1) := by
        intro left summary part
        obtain scheduled | ⟨messages, sent, carried, distinct⟩ := emitted
        · rw [scheduled]
          exact .postpone pending part
        · rw [sent, apply_publishes]
          exact .resend pending part carried distinct
      split at stepped
      · cases stepped
        exact moves rest _ (.refl rest)
      · cases stepped
        exact moves [] state.summary (nil_sublist rest)
  | fetch =>
    simp only [Recovery.step] at stepped
    split at stepped
    · next pending fetched =>
      cases stepped
      exact .fetch pending fetched
    · cases stepped
  | deliver env =>
    simp only [Recovery.step] at stepped
    split at stepped
    · cases stepped
    · next record _ fetched =>
      obtain ⟨messages, sent, carried, distinct⟩ := (deliverDelayed_publishes (state.read env) named record).outcome
      cases stepped
      rw [sent, apply_publishes]
      exact .deliver fetched carried distinct

end EventBase.Proofs.RecoverySteps
