import EventBase.DelayScheduler
import EventBase.Proofs.TaskLogic
import EventBase.Proofs.WalInterchange

/-! One pass of the delay scheduler. It drops a due record before it is sent, so a refused
send loses it. -/

namespace EventBase.Proofs.DelayScheduler
open Foundations TaskLogic WalInterchange TopicRouter

variable {record : WalRecord} {topic : String} {session : Session}

section
variable (env : Env)

/-- The producer answers `Ok` for a system topic without a queue and drops the message. -/
def Discards (topic : String) : Prop := ∃ routes, env.routes = some routes ∧ topic ∉ routes ∧ isSystemTopic topic = true

def Accepts (call : Nat) (topic : String) : Prop :=
  match env.routes with
  | none => env.sends call (sendMode env none none) = none
  | some routes => if topic ∈ routes then env.sends call (sendMode env none none) = none else isSystemTopic topic = true

def cleared (record : WalRecord) : EMessage := { record.message with deliverAt := none }

def recipients (record : WalRecord) : List EMessage :=
  if record.message.deliveryMode = .broadcast then
    (getWorkers env.registry record.message.topic).map (broadcastCopy (cleared record))
  else [cleared record]

/-- The send succeeded, and every message of the record went to its queue unless the producer discards its topic. -/
def Accepted (effects : List Effect) (record : WalRecord) : Prop :=
  (send env record.message.topic (cleared record) none none).outcome.2 = .ok () ∧
    (Discards env record.message.topic ∨ ∀ message ∈ recipients env record, .publish message ∈ effects)

/-- The producer takes every message of the record, and a broadcast is not sent from a Worker node. -/
def Deliverable (record : WalRecord) : Prop :=
  (record.message.deliveryMode = .broadcast → env.nodeType ≠ .worker) ∧
    ∀ call < (recipients env record).length, Accepts env call record.message.topic

end

theorem fetchReady_due {store : DelayStore} {now : SystemTime} {messageId} (due : store.Due now messageId record) :
    record ∈ (store.fetchReady now).1 ∧ (store.fetchReady now).2.delays.lookup messageId = none := by
  cases store with
  | inProcess store =>
    obtain ⟨found, passed⟩ := due
    have listed : messageId ∈ keysWhere store.delays (WalRecord.due now) := mem_keysWhere.mpr ⟨record, found, passed⟩
    simp only [DelayStore.fetchReady, DelayStore.delays, file_fetchReady, lookup_foldl_erase, if_pos listed, and_true]
    exact List.mem_filterMap.mpr ⟨messageId, listed, found⟩
  | redis store =>
    obtain ⟨found, listed⟩ := due
    simp only [DelayStore.fetchReady, DelayStore.delays, redis_fetchReady, lookup_foldl_erase, if_pos listed, and_true]
    exact List.mem_filterMap.mpr ⟨messageId, listed, found⟩

section
variable {env : Env}

def Routable (env : Env) (topic : String) : Prop := ∀ routes, env.routes = some routes → topic ∈ routes

theorem routed_of_routable (routable : Routable env topic) (mode : SendMode) (effect : Effect) :
    routed env topic mode effect = produce env mode effect := by
  unfold routed
  cases table : env.routes with
  | none => rfl
  | some routes => exact if_pos (routable routes table)

theorem accepts_of_routable (routable : Routable env topic) (call : Nat) :
    Accepts env call topic ↔ env.sends call (sendMode env none none) = none := by
  unfold Accepts
  cases table : env.routes with
  | none => rfl
  | some routes => simp only [routable routes table, if_true]

theorem accepts_of_unroutable (unroutable : ¬ Routable env topic) (call : Nat) :
    Accepts env call topic ↔ isSystemTopic topic = true := by
  simp only [Routable, not_forall] at unroutable
  obtain ⟨routes, table, unknown⟩ := unroutable
  simp only [Accepts, table, unknown, if_false]

theorem discards_of_unroutable (unroutable : ¬ Routable env topic) (system : isSystemTopic topic = true) :
    Discards env topic := by
  simp only [Routable, not_forall] at unroutable
  obtain ⟨routes, table, unknown⟩ := unroutable
  exact ⟨routes, table, unknown, system⟩

theorem routed_of_unroutable (unroutable : ¬ Routable env topic) (mode : SendMode) (effect : Effect) :
    routed env topic mode effect = if isSystemTopic topic then pure ()
      else throw (.queue (.send ("topic '" ++ topic ++ "' is not registered"))) := by
  simp only [Routable, not_forall] at unroutable
  obtain ⟨routes, table, unknown⟩ := unroutable
  simp only [routed, table, unknown, if_false]

def afterPublish (session : Session) (message : EMessage) : Session :=
  { session with sends := session.sends + 1, effects := session.effects ++ [.publish message] }

theorem emit_run (env : Env) (message : EMessage) (session : Session) :
    (Accepts env session.sends message.topic ∧ Routable env message.topic ∧
      emit env message none none session = .ok () (afterPublish session message)) ∨
    (Accepts env session.sends message.topic ∧ ¬ Routable env message.topic ∧ emit env message none none session = .ok () session) ∨
    (¬ Accepts env session.sends message.topic ∧ ∃ error final, emit env message none none session = .error error final) := by
  unfold emit
  by_cases routable : Routable env message.topic
  · rw [routed_of_routable routable, produce_eq, accepts_of_routable routable]
    cases answer : env.sends session.sends (sendMode env none none) with
    | none => exact .inl ⟨rfl, routable, rfl⟩
    | some error => exact .inr (.inr ⟨nofun, error, _, rfl⟩)
  · rw [routed_of_unroutable routable, accepts_of_unroutable routable]
    cases system : isSystemTopic message.topic with
    | true => exact .inr (.inl ⟨rfl, routable, rfl⟩)
    | false => exact .inr (.inr ⟨nofun, _, session, rfl⟩)

theorem emitCopies_accepted (msg : EMessage) {workers}
    (accepts : ∀ call < workers.length, Accepts env (session.sends + call) msg.topic) :
    ∃ final, emitCopies env msg none none workers session = .ok () final ∧ session.effects ⊆ final.effects ∧
      (Routable env msg.topic → ∀ info ∈ workers, .publish (broadcastCopy msg info) ∈ final.effects) := by
  induction workers generalizing session with
  | nil => exact ⟨session, rfl, fun _ member => member, fun _ _ member => nomatch member⟩
  | cons info rest ih =>
    obtain ⟨_, routable, ran⟩ | ⟨_, unroutable, ran⟩ | ⟨refuses, _⟩ := emit_run env (broadcastCopy msg info) session
    · have later : ∀ call < rest.length,
          Accepts env ((afterPublish session (broadcastCopy msg info)).sends + call) msg.topic := by
        intro call below
        have accepted := accepts (call + 1) (by simpa using below)
        rwa [Nat.add_comm call, ← Nat.add_assoc] at accepted
      obtain ⟨final, continued, kept, published⟩ := ih later
      refine ⟨final, (bind_ok ran).trans continued, fun effect member => kept (List.mem_append_left _ member), ?_⟩
      intro routable other member
      obtain rfl | member := List.mem_cons.mp member
      · exact kept (List.mem_append_right _ (List.mem_singleton_self _))
      · exact published routable other member
    · have system := (accepts_of_unroutable unroutable session.sends).mp (accepts 0 (by simp))
      obtain ⟨final, continued, kept, _⟩ := ih fun call _ => (accepts_of_unroutable unroutable (session.sends + call)).mpr system
      exact ⟨final, (bind_ok ran).trans continued, kept, fun routable => absurd routable unroutable⟩
    · exact absurd (accepts 0 (by simp)) refuses

theorem emitCopies_refused (msg : EMessage) {workers}
    (refuses : ¬ ∀ call < workers.length, Accepts env (session.sends + call) msg.topic) :
    ∃ error final, emitCopies env msg none none workers session = .error error final := by
  induction workers generalizing session with
  | nil => exact absurd (fun _ below => nomatch below) refuses
  | cons info rest ih =>
    obtain ⟨accepts, routable, ran⟩ | ⟨accepts, unroutable, ran⟩ | ⟨_, error, final, ran⟩ :=
      emit_run env (broadcastCopy msg info) session
    · have later : ¬ ∀ call < rest.length,
          Accepts env ((afterPublish session (broadcastCopy msg info)).sends + call) msg.topic := by
        intro later
        refine refuses fun call below => ?_
        cases call with
        | zero => exact accepts
        | succ call =>
          have accepted := later call (by simpa using below)
          rwa [afterPublish, Nat.add_assoc, Nat.add_comm 1] at accepted
      obtain ⟨error, final, continued⟩ := ih later
      exact ⟨error, final, (bind_ok ran).trans continued⟩
    · have system := (accepts_of_unroutable unroutable session.sends).mp accepts
      exact absurd (fun call _ => (accepts_of_unroutable unroutable (session.sends + call)).mpr system) refuses
    · exact ⟨error, final, bind_error ran⟩

theorem send_broadcast (broadcast : record.message.deliveryMode = .broadcast) :
    send env record.message.topic (cleared record) none none =
      if env.nodeType = .worker then throw (.unsupported "Unsupported node type, send broadcast message must host")
      else emitCopies env (cleared record) none none (getWorkers env.registry record.message.topic) := by
  have undelayed : (cleared record).deliverAt.isSome = false := rfl
  have mode : (cleared record).deliveryMode = .broadcast := broadcast
  simp only [send, undelayed, mode, Bool.false_eq_true, if_false, if_true]

theorem send_single (single : record.message.deliveryMode ≠ .broadcast) :
    send env record.message.topic (cleared record) none none = emit env (cleared record) none none := by
  have undelayed : (cleared record).deliverAt.isSome = false := rfl
  have mode : (cleared record).deliveryMode ≠ .broadcast := single
  simp only [send, undelayed, mode, Bool.false_eq_true, if_false]
  rfl

/-- The send of a fetched record succeeds exactly when it is deliverable, and
then every message of it is published or discarded. -/
def Sends (env : Env) (record : WalRecord) : EStateM.Result CoreError Session Unit → Prop
  | .ok () final => Deliverable env record ∧
    (Discards env record.message.topic ∨ ∀ message ∈ recipients env record, .publish message ∈ final.effects)
  | .error _ _ => ¬ Deliverable env record

theorem broadcast_sends (broadcast : record.message.deliveryMode = .broadcast) :
    Sends env record (send env record.message.topic (cleared record) none none Session.start) := by
  have copies : recipients env record =
      (getWorkers env.registry record.message.topic).map (broadcastCopy (cleared record)) := if_pos broadcast
  rw [send_broadcast broadcast]
  by_cases worker : env.nodeType = .worker
  · rw [if_pos worker]
    exact fun deliverable => deliverable.1 broadcast worker
  · rw [if_neg worker]
    have deliverable_iff : Deliverable env record ↔ ∀ call < (getWorkers env.registry record.message.topic).length,
        Accepts env (Session.start.sends + call) record.message.topic := by
      simp [Deliverable, worker, copies, Session.start]
    by_cases accepts : ∀ call < (getWorkers env.registry record.message.topic).length,
        Accepts env (Session.start.sends + call) record.message.topic
    · obtain ⟨final, ran, _, published⟩ := emitCopies_accepted (cleared record) accepts
      rw [ran]
      refine ⟨deliverable_iff.mpr accepts, ?_⟩
      rw [copies]
      by_cases routable : Routable env record.message.topic
      · refine .inr fun message member => ?_
        obtain ⟨info, listed, rfl⟩ := List.mem_map.mp member
        exact published routable info listed
      · cases workers : getWorkers env.registry record.message.topic with
        | nil => exact .inr fun _ member => nomatch member
        | cons info rest =>
          have system := (accepts_of_unroutable routable _).mp (accepts 0 (by simp [workers]))
          exact .inl (discards_of_unroutable routable system)
    · obtain ⟨error, final, ran⟩ := emitCopies_refused (cleared record) accepts
      rw [ran]
      exact fun deliverable => accepts (deliverable_iff.mp deliverable)

theorem single_sends (single : record.message.deliveryMode ≠ .broadcast) :
    Sends env record (send env record.message.topic (cleared record) none none Session.start) := by
  have itself : recipients env record = [cleared record] := if_neg single
  have deliverable_iff : Deliverable env record ↔ Accepts env Session.start.sends (cleared record).topic := by
    simp [Deliverable, single, itself, Session.start, cleared]
  rw [send_single single]
  obtain ⟨accepts, _, ran⟩ | ⟨accepts, unroutable, ran⟩ | ⟨refuses, error, final, ran⟩ :=
    emit_run env (cleared record) Session.start
  · rw [ran]
    refine ⟨deliverable_iff.mpr accepts, .inr fun message member => ?_⟩
    obtain rfl := List.mem_singleton.mp (itself ▸ member)
    exact List.mem_append_right _ (List.mem_singleton_self _)
  · rw [ran]
    have system := (accepts_of_unroutable unroutable _).mp accepts
    exact ⟨deliverable_iff.mpr accepts, .inl (discards_of_unroutable unroutable system)⟩
  · rw [ran]
    exact fun deliverable => refuses (deliverable_iff.mp deliverable)

end

/-- A due record is accepted in full or still scheduled after the pass exactly
when it is deliverable. -/
theorem due_record_kept_iff_deliverable (store : DelayStore) (now : SystemTime) (envs : WalRecord → Env)
    {messageId : String} {record : WalRecord} (due : store.Due now messageId record) :
    (Accepted (envs record) (runDelayScheduler store now envs).1 record ∨
      (runDelayScheduler store now envs).2.delays.lookup messageId = some record) ↔ Deliverable (envs record) record := by
  obtain ⟨fetched, removed⟩ := fetchReady_due due
  have gone : (runDelayScheduler store now envs).2.delays.lookup messageId ≠ some record := by
    simp [runDelayScheduler, removed]
  have sends : Sends (envs record) record
      (send (envs record) record.message.topic (cleared record) none none Session.start) := by
    by_cases broadcast : record.message.deliveryMode = .broadcast
    · exact broadcast_sends broadcast
    · exact single_sends broadcast
  simp only [gone, or_false, Accepted, TaskM.outcome, EStateM.run]
  cases ran : send (envs record) record.message.topic (cleared record) none none Session.start with
  | error error final =>
    rw [ran] at sends
    simp [show ¬ Deliverable (envs record) record from sends]
  | ok value final =>
    rw [ran] at sends
    obtain ⟨deliverable, published⟩ := sends
    simp only [true_and, deliverable, iff_true]
    refine published.imp id fun published message member => ?_
    refine List.mem_flatMap.mpr ⟨record, fetched, ?_⟩
    have delivered : (deliverDelayed (envs record) record).outcome.1 = final.effects := by
      have sent : send (envs record) record.message.topic { record.message with deliverAt := none } none none
        Session.start = .ok value final := ran
      simp only [deliverDelayed, TaskM.outcome, EStateM.run, tryCatch, tryCatchThe, MonadExceptOf.tryCatch, EStateM.tryCatch,
        sent]
    rw [delivered]
    exact published message member

private def broadcastDue : WalRecord :=
  WalRecord.fromMsg { EMessage.new "m" 0 "t" [] .broadcast none with deliverAt := some 5000000 }

private def twoWorkers : Table WorkerInfo :=
  ((∅ : Table WorkerInfo).insert "v" ⟨"v", "t", 0⟩).insert "w" ⟨"w", "t", 0⟩

private def delayStore : DelayStore := .inProcess (WalStore.empty.schedule broadcastDue)

private def stored : WalRecord := { broadcastDue with recordId := 1 }

private def hasRoom : Env where
  nodeType := .host
  registry := twoWorkers

theorem broadcast_delivered_when_accepted :
    Accepted hasRoom (runDelayScheduler delayStore 7000000 fun _ => hasRoom).1 stored ∨
      (runDelayScheduler delayStore 7000000 fun _ => hasRoom).2.delays.lookup "m" = some stored := by
  have due : delayStore.Due 7000000 "m" stored := ⟨by decide, by decide⟩
  exact (due_record_kept_iff_deliverable delayStore 7000000 (fun _ => hasRoom) due).mpr ⟨nofun, fun _ _ => rfl⟩

private def fillsUp : Env where
  nodeType := .host
  registry := twoWorkers
  defaultSendTimeout := some 1000000000
  sends call _ := if call = 0 then none else some (.queue .timeout)

theorem half_sent_broadcast_lost :
    delayStore.Due 7000000 "m" stored ∧
      ¬ (Accepted fillsUp (runDelayScheduler delayStore 7000000 fun _ => fillsUp).1 stored ∨
        (runDelayScheduler delayStore 7000000 fun _ => fillsUp).2.delays.lookup "m" = some stored) := by
  refine ⟨⟨by decide, by decide⟩, ?_⟩
  rintro (⟨sent, _⟩ | kept)
  · have refused : (send fillsUp stored.message.topic (cleared stored) none none).outcome.2 =
        .error (.queue .timeout) := rfl
    rw [refused] at sent
    cases sent
  · exact absurd kept (by decide)

end EventBase.Proofs.DelayScheduler
