import EventBase.Proofs.RecoverySteps
import EventBase.Proofs.SettledCalls
import EventBase.Proofs.TerminalStatus

/-! Where the copies of a logged message can be, and that its record is pending only as long
as one of them is on its way. -/

namespace EventBase.Proofs.LoggedCopies
open Foundations LoggedWork RecoverySteps SettledCalls StatusReports TaskLogic

/-- A message in a queue: it is the copy of a logged one, or goes by a longer id. -/
def Queued (width : Nat) (logged : List EMessage) (other : EMessage) : Prop :=
  width < other.id.length ∨ ∃ message ∈ logged, other.id = message.id ∧ other.deliveryMode = message.deliveryMode ∧
    message.deliveryMode ≠ .broadcast ∧ other.deliverAt = none

def Delayed (width : Nat) (logged : List EMessage) (other : EMessage) : Prop :=
  width < other.id.length ∨ ∃ message ∈ logged, other.id = message.id ∧ other.deliveryMode = message.deliveryMode ∧
    other.topic = message.topic

def Traced (width : Nat) (logged : List EMessage) : Effect → Prop
  | .publish other | .requeue other => Queued width logged other
  | .schedule record => Delayed width logged record.message
  | .audit _ | .walSync _ => True

/-- Pipelines work on the payload; what identifies a delivery stays. -/
structure SameEnvelope (before after : EMessage) : Prop where
  id : after.id = before.id
  topic : after.topic = before.topic
  deliveryMode : after.deliveryMode = before.deliveryMode
  deliverAt : after.deliverAt = before.deliverAt

instance (before after : EMessage) : Decidable (SameEnvelope before after) :=
  decidable_of_iff (after.id = before.id ∧ after.topic = before.topic ∧ after.deliveryMode = before.deliveryMode ∧
      after.deliverAt = before.deliverAt)
    ⟨fun ⟨id, topic, mode, time⟩ => ⟨id, topic, mode, time⟩, fun same => ⟨same.id, same.topic, same.deliveryMode, same.deliverAt⟩⟩

section
variable {width : Nat} {logged : List EMessage} {other : EMessage}

theorem Queued.grow {more} (queued : Queued width logged other) : Queued width (logged ++ more) other := by
  obtain long | ⟨message, member, same⟩ := queued
  · exact .inl long
  · exact .inr ⟨message, List.mem_append_left more member, same⟩

theorem Delayed.grow {more} (delayed : Delayed width logged other) : Delayed width (logged ++ more) other := by
  obtain long | ⟨message, member, same⟩ := delayed
  · exact .inl long
  · exact .inr ⟨message, List.mem_append_left more member, same⟩

theorem Traced.grow {more effect} (traced : Traced width logged effect) :
    Traced width (logged ++ more) effect := by
  cases effect with
  | publish other | requeue other => exact Queued.grow traced
  | schedule record => exact Delayed.grow traced
  | audit | walSync => trivial

theorem Queued.same {after} (queued : Queued width logged other) (id : after.id = other.id)
    (mode : after.deliveryMode = other.deliveryMode) (time : after.deliverAt = other.deliverAt) :
    Queued width logged after := by
  unfold Queued
  rw [id, mode, time]
  exact queued

theorem width_lt_broadcastCopy (wide : width ≤ other.id.length) (info : WorkerInfo) :
    width < (broadcastCopy other info).id.length := by
  simp only [broadcastCopy, String.length_append]
  have dash : "-".length = 1 := rfl
  omega

theorem Queued.wide (sized : ∀ message ∈ logged, message.id.length = width) (queued : Queued width logged other) :
    width ≤ other.id.length := by
  obtain long | ⟨message, member, same, _⟩ := queued
  · exact long.le
  · rw [same, sized message member]

theorem Delayed.wide (sized : ∀ message ∈ logged, message.id.length = width) (delayed : Delayed width logged other) :
    width ≤ other.id.length := by
  obtain long | ⟨message, member, same, _⟩ := delayed
  · exact long.le
  · rw [same, sized message member]

variable (sized : ∀ message ∈ logged, message.id.length = width) {env : Env}
include sized

theorem send_traced_now (delayed : Delayed width logged other) (immediate : other.deliverAt = none) (trySend : Option Bool)
    (timeout : Option Duration) :
    EmitsOnly (Traced width logged) (TopicRouter.send env other.topic other trySend timeout) := by
  refine .send env (fun later => by simp [immediate] at later) (fun _ mode info _ => ?_) fun _ mode => ?_
  · exact .inl (width_lt_broadcastCopy (delayed.wide sized) info)
  · obtain long | ⟨message, member, same, kept, _⟩ := delayed
    · exact .inl long
    · exact .inr ⟨message, member, same, kept, kept ▸ mode, immediate⟩

theorem send_traced (delayed : Delayed width logged other) (trySend : Option Bool) (timeout : Option Duration) :
    EmitsOnly (Traced width logged) (TopicRouter.send env other.topic other trySend timeout) := by
  by_cases immediate : other.deliverAt = none
  · exact send_traced_now sized delayed immediate trySend timeout
  · refine .send env (fun _ => delayed) (fun none => absurd none immediate) fun none => absurd none immediate

theorem letter_traced (queued : Queued width logged other) (topic : String) :
    EmitsOnly (Traced width logged) (TopicRouter.send env topic other none none) := by
  refine .send env (fun later => ?_) (fun _ mode info _ => ?_) fun _ _ => ?_
  · obtain long | ⟨message, _, _, _, _, immediate⟩ := queued
    · exact .inl long
    · simp [immediate] at later
  · exact .inl (width_lt_broadcastCopy (queued.wide sized) info)
  · exact queued.same rfl rfl rfl

variable {worker : Worker}

theorem sendToDeadLetter_traced (queued : Queued width logged other) (reason : DeadReason) (processTime : Duration) :
    EmitsOnly (Traced width logged) (worker.sendToDeadLetter env other reason processTime) := by
  refine (EmitsOnly.syncStatus env worker fun _ => trivial).bind fun _ => ?_
  refine (letter_traced sized ?_ _).bind fun _ => ?_
  · exact queued.same rfl rfl rfl
  · exact .cond (fun _ => .auditMsg env worker fun _ => trivial) fun _ => .pure ()

theorem settle_traced {answer} (queued : Queued width logged other)
    (home : .pending ∈ verdict answer other → Delayed width logged other) (processTime : Duration) :
    EmitsOnly (Traced width logged) (worker.settle env answer other processTime) := by
  have reported : ∀ status attempts error,
      EmitsOnly (Traced width logged) (worker.syncStatus env other.id other.topic status attempts error) :=
    fun _ _ _ => .syncStatus env worker fun _ => trivial
  have kept : ∀ after : EMessage, after.id = other.id → after.deliveryMode = other.deliveryMode → after.deliverAt = other.deliverAt →
      EmitsOnly (Traced width logged) (Worker.ownSend env after) :=
    fun after id mode time => .produce env .send (queued.same id mode time)
  cases answer with
  | ack =>
    simp only [Worker.settle]
    unfold Worker.onAck
    split
    · refine .cond (fun _ => reported _ _ _) fun _ => (reported _ _ _).bind fun _ => (reported _ _ _).bind fun _ => ?_
      exact kept _ rfl rfl rfl
    · refine .cond (fun _ => ?_) fun _ => reported _ _ _
      exact (EmitsOnly.auditMsg env worker fun _ => trivial).bind fun _ => reported _ _ _
  | noAck retryAfter maxRetries =>
    refine (reported _ _ _).bind fun _ => .cond (fun _ => ?_) fun _ => ?_
    · refine sendToDeadLetter_traced sized ?_ _ _
      exact queued.same rfl rfl rfl
    · have own : Delayed width logged other := home (by simp only [verdict]; split <;> simp)
      cases retryAfter with
      | some delay =>
        refine (EmitsOnly.now env).bind fun time => ?_
        refine send_traced sized ?_ none none
        exact own
      | none => exact kept _ rfl rfl rfl
  | dead reason => exact (reported _ _ _).bind fun _ => sendToDeadLetter_traced sized queued reason processTime

theorem processMsg_traced {msg run} (queued : Queued width logged msg) (same : SameEnvelope msg run.message)
    (home : .pending ∈ verdict (worker.status run) run.message → Delayed width logged run.message) :
    EmitsOnly (Traced width logged) (worker.processMsg env run msg) := by
  refine .processMsg env worker (fun _ => trivial) (fun _ => trivial) fun _ processTime => ?_
  exact settle_traced sized (queued.same same.id same.deliveryMode same.deliverAt) home processTime

end

section
variable {store : DelayStore}

theorem sync_lookup (sync : WalSyncMessage) (id : String) :
    (store.sync sync).records.lookup id =
      (store.records.lookup id).map fun record => if id = sync.messageId then { record with status := sync.status } else record := by
  have updated : ∀ records : Table WalRecord, ∀ record, records.lookup sync.messageId = some record →
      (Table.setStatus records sync.messageId record sync.status).lookup id =
        (records.lookup id).map fun record => if id = sync.messageId then { record with status := sync.status } else record := by
    intro records record found
    by_cases same : id = sync.messageId
    · subst same
      simp [Table.setStatus, found]
    · simp [Table.setStatus, AList.lookup_insert_ne same, same]
  have missing : ∀ records : Table WalRecord, records.lookup sync.messageId = none →
      records.lookup id =
        (records.lookup id).map fun record => if id = sync.messageId then { record with status := sync.status } else record := by
    intro records none
    by_cases same : id = sync.messageId
    · subst same
      simp [none]
    · simp [same]
  cases store with
  | inProcess store =>
    simp only [DelayStore.sync, PersistentWal.apply, PersistentWal.updateState, DelayStore.records]
    cases found : store.records.lookup sync.messageId with
    | some record => exact updated store.records record found
    | none => exact missing store.records found
  | redis store =>
    simp only [DelayStore.sync, RedisWal.apply, RedisWal.updateState, DelayStore.records]
    cases found : store.records.lookup sync.messageId with
    | some record => exact updated store.records record found
    | none => exact missing store.records found

theorem status_sync (sync : WalSyncMessage) (id : String) :
    (store.sync sync).status id = (store.status id).map fun status => if id = sync.messageId then sync.status else status := by
  simp only [DelayStore.status, sync_lookup, Option.map_map]
  congr 1
  funext record
  simp only [Function.comp_apply]
  split <;> rfl

@[simp] theorem delays_sync (sync : WalSyncMessage) : (store.sync sync).delays = store.delays := by
  cases store with
  | inProcess store =>
    simp only [DelayStore.sync, PersistentWal.apply, PersistentWal.updateState, DelayStore.delays]
    split
    · next updated => split at updated <;> cases updated; rfl
    · rfl
  | redis store =>
    simp only [DelayStore.sync, RedisWal.apply, RedisWal.updateState, DelayStore.delays]
    split
    · next updated => split at updated <;> cases updated; rfl
    · rfl

theorem append_lookup {record found id} (present : (store.append record).records.lookup id = some found) :
    (id = record.message.id ∧ found.message = record.message ∧ found.status = record.status) ∨
      (id ≠ record.message.id ∧ store.records.lookup id = some found) := by
  cases store with
  | inProcess store | redis store =>
    obtain ⟨rfl, rfl⟩ | ⟨other, kept⟩ := lookup_insert_cases present
    · exact .inl ⟨rfl, rfl, rfl⟩
    · exact .inr ⟨other, kept⟩

theorem status_append (record : WalRecord) (id : String) :
    (store.append record).status id = if id = record.message.id then some record.status else store.status id := by
  cases store with
  | inProcess store | redis store => exact TerminalStatus.status_insert rfl id

@[simp] theorem delays_append (record : WalRecord) : (store.append record).delays = store.delays := by cases store <;> rfl

@[simp] theorem records_schedule (record : WalRecord) :
    (store.schedule record).records = store.records := by cases store <;> rfl

@[simp] theorem records_fetchReady (now : SystemTime) : (store.fetchReady now).2.records = store.records := by
  cases store with
  | inProcess store => rfl
  | redis store => simp only [DelayStore.fetchReady, WalInterchange.redis_fetchReady, DelayStore.records]

theorem schedule_kept (record : WalRecord) {id}
    (scheduled : id = record.message.id ∨ ∃ entry, store.delays.lookup id = some entry) :
    ∃ entry, (store.schedule record).delays.lookup id = some entry := by
  by_cases same : id = record.message.id
  · subst same
    cases store with
    | inProcess store | redis store => exact ⟨_, AList.lookup_insert _⟩
  · obtain wrong | ⟨entry, found⟩ := scheduled
    · exact absurd wrong same
    · refine ⟨entry, ?_⟩
      cases store with
      | inProcess store | redis store => exact (AList.lookup_insert_ne same).trans found

end

end EventBase.Proofs.LoggedCopies
