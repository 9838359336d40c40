import EventBase.Proofs.RecoverySteps

/-! Recoveries that can happen: with a producer that takes everything each pending
record and each due entry is delivered, with one that refuses everything the replay
leaves the WAL as it is. -/

namespace EventBase.Proofs.RecoveryRuns
open Foundations DelayScores TaskLogic RecoverySteps List Option Recovery

def willing (registry : Table WorkerInfo) (clock : SystemTime) : Env :=
  { nodeType := .host, registry, clock := fun _ => clock }

def unwilling (clock : SystemTime) : Env where
  nodeType := .host
  registry := ∅
  sends _ _ := some (.other "refused")
  schedules _ := some (.other "refused")
  clock _ := clock

def Meets (registry : Table WorkerInfo) (msg : EMessage) (id : String) : Prop :=
  match msg.deliveryMode with
  | .broadcast => ∃ info ∈ getWorkers registry msg.topic, id = msg.id ++ "-" ++ info.workerName
  | _ => id = msg.id

theorem namedBy_singleton (name topic : String) : NamedBy (AList.singleton name ⟨name, topic, 0⟩) := by
  intro other info found
  have member := AList.mem_lookup_iff.mp found
  simp only [AList.singleton, mem_singleton] at member
  cases member
  rfl

theorem meets_of_carries {msg id} (carries : Carries msg id) :
    ∃ registry, NamedBy registry ∧ Meets registry msg id := by
  by_cases mode : msg.deliveryMode = .broadcast
  · simp only [Carries, mode] at carries
    obtain ⟨name, rfl⟩ := carries
    refine ⟨_, namedBy_singleton name msg.topic, ?_⟩
    simp [Meets, mode, getWorkers, Table.values, AList.singleton]
  · refine ⟨_, namedBy_singleton msg.id msg.topic, ?_⟩
    unfold Carries at carries
    unfold Meets
    split
    · next broadcast => exact absurd broadcast mode
    · split at carries
      · next broadcast => exact absurd broadcast mode
      · exact carries

def Covers (registry : Table WorkerInfo) (msg : EMessage) (messages : List EMessage) : Prop :=
  ∀ id, Meets registry msg id → id ∈ messages.map EMessage.id

section
variable {registry : Table WorkerInfo} {clock : SystemTime}

theorem emit_all {msg post} (accepted : post [.publish msg] (.ok ())) :
    Emits (emit (willing registry clock) msg none none) post := by
  have produced : Emits (produce (willing registry clock) .send (.publish msg)) post :=
    produce_emits _ (fun _ _ => accepted) fun _ _ refused => by cases refused
  exact produced

theorem emit_refused {msg post} (refused : ∀ error, post [] (.error error)) :
    Emits (emit (unwilling clock) msg none none) post := by
  have produced : Emits (produce (unwilling clock) .send (.publish msg)) post :=
    produce_emits _ (fun _ accepted => by cases accepted) fun _ error _ => refused error
  exact produced

theorem emitCopies_all (msg : EMessage) (workers : List WorkerInfo) :
    Emits (emitCopies (willing registry clock) msg none none workers) fun added result =>
      added = (workers.map (broadcastCopy msg)).map .publish ∧ result = .ok () := by
  induction workers with
  | nil => exact .pure () ⟨rfl, rfl⟩
  | cons info rest ih =>
    refine .bind (emit_all (ih.weaken ?_))
    rintro _ _ ⟨rfl, rfl⟩
    exact ⟨rfl, rfl⟩

theorem send_all {msg} (immediate : msg.deliverAt = none) :
    Emits (TopicRouter.send (willing registry clock) msg.topic msg none none) fun added result =>
      (∃ messages : List EMessage, added = messages.map .publish ∧ Covers registry msg messages) ∧ result = .ok () := by
  unfold TopicRouter.send
  refine .cond (fun delayed => by simp [immediate] at delayed) fun _ => .cond (fun mode => ?_) fun mode => ?_
  · refine .cond (fun worker => by cases worker) fun _ => (emitCopies_all msg _).weaken ?_
    rintro _ _ ⟨rfl, rfl⟩
    refine ⟨⟨_, rfl, fun id meets => ?_⟩, rfl⟩
    simp only [Meets, mode] at meets
    obtain ⟨info, listed, rfl⟩ := meets
    exact mem_map_of_mem (mem_map_of_mem listed)
  · refine emit_all ⟨⟨[_], rfl, fun id meets => ?_⟩, rfl⟩
    unfold Meets at meets
    split at meets
    · next broadcast => exact absurd broadcast mode
    · simp [meets]

theorem deliverDelayed_all (registry : Table WorkerInfo) (clock : SystemTime) (record : WalRecord) :
    Emits (deliverDelayed (willing registry clock) record) fun added _ =>
      ∃ messages : List EMessage, added = messages.map .publish ∧ Covers registry record.message messages := by
  refine Emits.ignore ((send_all (by rfl)).weaken ?_)
  rintro _ _ ⟨covered, _⟩
  exact covered

theorem replayRecord_all (registry : Table WorkerInfo) {record} (present : record.inFuture clock = false)
    (summary : ReplaySummary) :
    Emits (TopicRouter.replayRecord (willing registry clock) summary record) fun added result =>
      (∃ messages : List EMessage, added = messages.map .publish ∧ Covers registry record.message messages) ∧
        ∃ after, result = .ok after := by
  have future : Emits (isFuture (willing registry clock) record.message) fun added result =>
      added = [] ∧ result = .ok false := by
    unfold WalRecord.inFuture at present
    split at present
    · next deadline stamped =>
      simp only [isFuture, stamped]
      exact .bind (now_emits _ fun _ => .pure _ ⟨rfl, congrArg Except.ok present⟩)
    · next stamped =>
      simp only [isFuture, stamped]
      exact .pure _ ⟨rfl, rfl⟩
  refine .bind (future.weaken ?_)
  rintro _ _ ⟨rfl, rfl⟩
  refine .cond (fun wrong => by cases wrong) fun _ => ?_
  refine .recover (.bind ((send_all (by rfl)).weaken ?_))
  rintro _ _ ⟨⟨messages, rfl, covered⟩, rfl⟩
  exact .pure _ ⟨⟨messages, by simp, covered⟩, _, rfl⟩

theorem replayRecord_refused (clock : SystemTime) (record : WalRecord) (summary : ReplaySummary) :
    Emits (TopicRouter.replayRecord (unwilling clock) summary record) fun added _ => added = [] := by
  have send : Emits (TopicRouter.send (unwilling clock) record.message.topic { record.message with deliverAt := none } none none)
      fun added _ => added = [] := by
    unfold TopicRouter.send
    refine .cond (fun delayed => by cases delayed) fun _ => .cond (fun _ => ?_) fun _ => ?_
    · exact .cond (fun worker => by cases worker) fun _ => .pure () rfl
    · exact emit_refused fun _ => rfl
  refine .bind (isFuture_emits fun future => .cond (fun _ => ?_) fun _ => .recover (.bind (send.weaken ?_)))
  · exact .bind (schedule_emits (unwilling clock) (fun _ accepted => by cases accepted) fun _ _ _ => rfl)
  · rintro _ (error | value) rfl
    · rfl
    · exact .pure _ rfl

end

section
variable (registries : WalRecord → Table WorkerInfo)

def Delivered (registries : WalRecord → Table WorkerInfo) (records : List WalRecord) (parts : List (List EMessage)) : Prop :=
  List.Forall₂ (fun record messages => Covers (registries record) record.message messages) records parts

theorem replay_step {state : Recovery} {record : WalRecord} {rest} (pending : state.pending = record :: rest)
    (present : record.inFuture state.clock = false) :
    ∃ messages summary, Covers (registries record) record.message messages ∧
      state.step (.replay (willing (registries record) 0)) =
        some { state with
          pending := rest
          summary := summary
          delivered := state.delivered ++ messages.map fun message => (message, state.clock) } := by
  obtain ⟨⟨messages, added, covers⟩, after, answered⟩ :=
    (replayRecord_all (registries record) present state.summary).outcome
  refine ⟨messages, after, covers, ?_⟩
  have read : state.read (willing (registries record) 0) = willing (registries record) state.clock := rfl
  simp only [step, pending, read, answered, added, apply_publishes]

theorem replay_all (records : List WalRecord) {state : Recovery} (pending : state.pending = records)
    (present : ∀ record ∈ records, record.inFuture state.clock = false) :
    ∃ final parts,
      run step state (records.map fun record => .replay (willing (registries record) 0)) = some final ∧
        final.pending = [] ∧ final.store = state.store ∧ final.clock = state.clock ∧ final.fetched = state.fetched ∧
        Delivered registries records parts ∧
        final.delivered = state.delivered ++ parts.flatten.map fun message => (message, state.clock) := by
  induction records generalizing state with
  | nil => exact ⟨state, [], rfl, pending, rfl, rfl, rfl, .nil, by simp⟩
  | cons record rest ih =>
    obtain ⟨messages, summary, covers, stepped⟩ := replay_step registries pending
      (present record mem_cons_self)
    obtain ⟨final, parts, ran, ended, store, clock, fetched, covered, delivered⟩ :=
      @ih { state with
        pending := rest, summary, delivered := state.delivered ++ messages.map fun message => (message, state.clock) }
        rfl fun other member => present other (mem_cons_of_mem _ member)
    refine ⟨final, messages :: parts, ?_, ended, store, clock, fetched, .cons covers covered, ?_⟩
    · simp only [map_cons, run, stepped, bind_some]
      exact ran
    · simp [delivered, append_assoc]

theorem deliver_all (records : List WalRecord) {state} (fetched : state.fetched = records) :
    ∃ final parts,
      run step state (records.map fun record => .deliver (willing (registries record) 0)) = some final ∧
        Delivered registries records parts ∧
        final.delivered = state.delivered ++ parts.flatten.map fun message => (message, state.clock) := by
  induction records generalizing state with
  | nil => exact ⟨state, [], rfl, .nil, by simp⟩
  | cons record rest ih =>
    obtain ⟨messages, added, covers⟩ :=
      (deliverDelayed_all (registries record) state.clock record).outcome
    have read : state.read (willing (registries record) 0) = willing (registries record) state.clock := rfl
    obtain ⟨final, parts, ran, covered, delivered⟩ :=
      @ih { state with
        fetched := rest, delivered := state.delivered ++ messages.map fun message => (message, state.clock) } rfl
    refine ⟨final, messages :: parts, ?_, .cons covers covered, ?_⟩
    · simp only [map_cons, run, step, fetched, read, added, apply_publishes, bind_some]
      exact ran
    · simp [delivered, append_assoc]

theorem recovery_all (named : ∀ record, NamedBy (registries record)) (store : DelayStore) {clock}
    (present : ∀ record ∈ store.replayPending, record.inFuture clock = false) :
    ∃ events final parts, (∀ event ∈ events, Named event) ∧
      run step (start none store clock) events = some final ∧
      Delivered registries (store.replayPending ++ (store.fetchReady clock).1) parts ∧
      final.delivered = parts.flatten.map fun message => (message, clock) := by
  have whole : (start none store clock).pending = store.replayPending := by
    simp [start, replayable]
  obtain ⟨replayed, first, ran, ended, same, time, waiting, sent, delivered⟩ :=
    replay_all registries store.replayPending whole present
  obtain ⟨final, second, drained, fetched, total⟩ :=
    @deliver_all registries (store.fetchReady clock).1
      { replayed with store := (store.fetchReady clock).2, fetched := (store.fetchReady clock).1 } rfl
  refine ⟨(store.replayPending.map fun record => .replay (willing (registries record) 0)) ++
    .fetch :: (store.fetchReady clock).1.map fun record => .deliver (willing (registries record) 0), final, first ++ second,
    ?_, ?_, rel_append sent fetched, ?_⟩
  · intro event member
    simp only [List.mem_append, List.mem_map, List.mem_cons] at member
    obtain ⟨record, _, rfl⟩ | rfl | ⟨record, _, rfl⟩ := member
    · exact named record
    · trivial
    · exact named record
  · rw [run_append, ran, Option.bind_some, run]
    have idle : replayed.fetched = [] := waiting
    simp only [step, ended, idle, same, time, bind_some]
    simp only [ended, time] at drained
    exact drained
  · rw [total, delivered, flatten_append, map_append]
    rw [show replayed.clock = clock from time]
    rfl

theorem replay_refused (records : List WalRecord) {state} (pending : state.pending = records) :
    ∃ events summary, (∀ event ∈ events, Named event) ∧
      run step state events = some { state with pending := [], summary } := by
  induction records generalizing state with
  | nil =>
    refine ⟨[], state.summary, by simp, ?_⟩
    rw [run, ← pending]
  | cons record rest ih =>
    have silent := (replayRecord_refused state.clock record state.summary).outcome
    have read : state.read (unwilling 0) = unwilling state.clock := rfl
    have unnamed : Named (.replay (unwilling 0)) := fun _ _ found => by cases found
    cases answer : (TopicRouter.replayRecord (unwilling state.clock) state.summary record).outcome.2 with
    | ok summary =>
      obtain ⟨events, last, named, ran⟩ := @ih { state with pending := rest, summary } rfl
      refine ⟨.replay (unwilling 0) :: events, last, by simpa using ⟨unnamed, named⟩, ?_⟩
      simp only [run, step, pending, read, answer, silent, apply, bind_some]
      exact ran
    | error error =>
      refine ⟨[.replay (unwilling 0)], state.summary, by simpa using unnamed, ?_⟩
      simp only [run, step, pending, read, answer, silent, apply, bind_some]

end

end EventBase.Proofs.RecoveryRuns
