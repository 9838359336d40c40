import EventBase.Proofs.LoggedCopies

/-! Over whole runs: the record of a message that is not a broadcast is pending only while a
copy of it waits, is put off or is in the hands of a call. -/

namespace EventBase.Proofs.OutstandingCopies
open Foundations LoggedCopies LoggedWork RecoverySteps SettledCalls StatusReports TaskLogic List Option

/-- Workers report through a router that knows `_system.wal_sync`, pipelines leave the envelope
alone, and the handler of a dead letter does not ask for it again. Only messages of business
topics are logged. -/
def Sound (state : State) : Event → Prop
  | .submit message _ _ _ => isSystemTopic message.topic = false
  | .take index _ _ worker env run =>
    (∀ routes ∈ env.routes, systemTopicWalSync ∈ routes) ∧
      ∀ copy ∈ state.queue[index]?, SameEnvelope copy.message run.message ∧
        ∀ message ∈ state.logged, copy.message.id = message.id → copy.message.topic ≠ message.topic →
          .pending ∉ verdict (worker.status run) run.message
  | .fetch _ | .deliver _ _ | .emit _ => True

instance (state : State) : (event : Event) → Decidable (Sound state event)
  | .submit message _ _ _ => inferInstanceAs (Decidable (isSystemTopic message.topic = false))
  | .take _ _ _ _ _ _ => inferInstanceAs (Decidable (_ ∧ _))
  | .fetch _ | .deliver _ _ | .emit _ => isTrue trivial

structure Honest (message : EMessage) (call : Call) : Prop where
  silent : message.deliveryMode = .broadcast → marks call.effects = []
  letter : call.message.topic ≠ message.topic → (message.id, .pending) ∉ marks call.effects
  answered : call.message.topic = message.topic → message.deliveryMode ≠ .broadcast → call.concludes = true →
    Answered message call.effects

structure Proper (width : Nat) (logged : List EMessage) (call : Call) : Prop where
  named : width < call.message.id.length ∨ ∃ message ∈ logged, call.message.id = message.id
  traced : ∀ effect ∈ call.effects, Traced width logged effect
  reports : ∀ mark ∈ marks call.effects, mark.1 = call.message.id
  honest : ∀ message ∈ logged, call.message.id = message.id → Honest message call

inductive Outstanding (state : State) (message : EMessage) : Prop
  | queued (copy : Copy) (member : copy ∈ state.queue) (waiting : copy.delivered = false)
    (same : copy.message.id = message.id ∧ copy.message.topic = message.topic)
  | delayed (record : WalRecord) (found : state.wal.delays.lookup message.id = some record)
  | fetched (record : WalRecord) (member : record ∈ state.fetched) (same : record.message.id = message.id)
  | called (call : Call) (member : call ∈ state.calls)
    (same : call.message.id = message.id ∧ call.message.topic = message.topic)
    (unsettled : call.concludes = false ∨ Settles message call.effects)

structure Kept (width : Nat) (state : State) : Prop where
  distinct : ∀ message ∈ state.logged, ∀ other ∈ state.logged, message.id = other.id → message = other
  sized : ∀ message ∈ state.logged, message.id.length = width
  business : ∀ message ∈ state.logged, isSystemTopic message.topic = false
  queued : ∀ copy ∈ state.queue, Queued width state.logged copy.message
  delayed : ∀ id record, state.wal.delays.lookup id = some record →
    id = record.message.id ∧ Delayed width state.logged record.message
  fetched : ∀ record ∈ state.fetched, Delayed width state.logged record.message
  calls : ∀ call ∈ state.calls, Proper width state.logged call
  records : ∀ id record, state.wal.records.lookup id = some record → record.message ∈ state.logged ∧ id = record.message.id
  broadcast : ∀ message ∈ state.logged, message.deliveryMode = .broadcast → state.wal.status message.id = some .pending
  pending : ∀ message ∈ state.logged, message.deliveryMode ≠ .broadcast → state.wal.status message.id = some .pending →
    Outstanding state message

section
variable {width : Nat} {state : State} (kept : Kept width state)
include kept

theorem Kept.queued_logged {copy message} (member : copy ∈ state.queue) (logged : message ∈ state.logged)
    (same : copy.message.id = message.id) :
    copy.message.deliveryMode = message.deliveryMode ∧ message.deliveryMode ≠ .broadcast := by
  obtain long | ⟨other, listed, id, mode, single, _⟩ := kept.queued copy member
  · rw [same, kept.sized message logged] at long
    exact absurd long (lt_irrefl width)
  · obtain rfl := kept.distinct message logged other listed (same.symm.trans id)
    exact ⟨mode, single⟩

theorem Kept.delayed_logged {other message} (delayed : Delayed width state.logged other)
    (logged : message ∈ state.logged) (same : other.id = message.id) :
    other.deliveryMode = message.deliveryMode ∧ other.topic = message.topic := by
  obtain long | ⟨origin, listed, id, mode, topic⟩ := delayed
  · rw [same, kept.sized message logged] at long
    exact absurd long (lt_irrefl width)
  · obtain rfl := kept.distinct message logged origin listed (same.symm.trans id)
    exact ⟨mode, topic⟩

theorem Kept.take_proper {index copy toWorker attempts worker env run}
    (sound : Sound state (.take index toWorker attempts worker env run)) (found : state.queue[index]? = some copy)
    (topical : worker.topic = copy.message.topic) :
    let msg := { copy.message with toWorker, attempts }
    let outcome := (worker.processMsg env run msg).outcome
    Proper width state.logged ⟨msg, outcome.1, worker.concludes run outcome⟩ ∧
      ∀ message ∈ state.logged, copy.message.id = message.id → copy.message.topic = message.topic →
        worker.concludes run outcome = true → Concludes message outcome.1 := by
  intro msg outcome
  obtain ⟨routed, admitted⟩ := sound
  obtain ⟨same, letters⟩ := admitted copy found
  have member := mem_of_getElem? found
  have queued := kept.queued copy member
  have among : (marks outcome.1).Sublist (plan worker run msg) := (processMsg_reports env worker run msg).outcome
  have concludes : ∀ message ∈ state.logged, copy.message.id = message.id → copy.message.topic = message.topic →
      worker.concludes run outcome = true → Concludes message outcome.1 := by
    intro message logged id topic concluded
    obtain ⟨mode, single⟩ := kept.queued_logged member logged id
    refine concludes_outcome routed ⟨same.id.trans id, same.topic.trans topic⟩ ?_ (topical.trans same.topic.symm) ?_ id concluded
    · rwa [same.deliveryMode, mode]
    · rw [topical, topic]
      exact kept.business message logged
  refine ⟨⟨?_, ?_, ?_, ?_⟩, concludes⟩
  · exact queued.imp_right fun ⟨message, listed, id, _⟩ => ⟨message, listed, id⟩
  · refine (processMsg_traced kept.sized (queued.same rfl rfl rfl) ⟨same.id, same.topic, same.deliveryMode, same.deliverAt⟩ ?_).outcome
    intro pending
    obtain long | ⟨message, listed, id, mode, _⟩ := queued
    · exact .inl (same.id ▸ long)
    · refine .inr ⟨message, listed, same.id.trans id, same.deliveryMode.trans mode, same.topic.trans ?_⟩
      by_contra elsewhere
      exact letters message listed id elsewhere pending
  · intro mark reported
    obtain ⟨_, own | left⟩ := plan_ids (among.subset reported)
    · exact own
    · exact left.trans same.id
  · intro message logged id
    obtain ⟨_, single⟩ := kept.queued_logged member logged id
    refine ⟨fun broadcast => absurd broadcast single, fun elsewhere reported => ?_, fun topic _ concluded => ?_⟩
    · exact letters message logged id elsewhere (pending_planned (among.subset reported))
    · exact (concludes message logged id topic concluded).answered

end

section
variable {width : Nat} {logged : List EMessage} {call : Call}

theorem Proper.grow {message} (sized : message.id.length = width) (fresh : ∀ other ∈ logged, other.id ≠ message.id)
    (proper : Proper width logged call) : Proper width (logged ++ [message]) call := by
  refine ⟨?_, fun effect member => (proper.traced effect member).grow, proper.reports, fun other member same => ?_⟩
  · obtain long | ⟨other, listed, same⟩ := proper.named
    · exact .inl long
    · exact .inr ⟨other, mem_append_left _ listed, same⟩
  · obtain listed | rfl := mem_concat_cases member
    · exact proper.honest other listed same
    · obtain long | ⟨known, listed, id⟩ := proper.named
      · rw [same, sized] at long
        exact absurd long (lt_irrefl width)
      · exact absurd (id.symm.trans same) (fresh known listed)

theorem Proper.rest {message effect rest concludes}
    (proper : Proper width logged ⟨message, effect :: rest, concludes⟩) :
    Proper width logged ⟨message, rest, concludes⟩ := by
  have fewer : marks rest ⊆ marks (effect :: rest) := ((sublist_cons_self effect rest).filterMap mark?).subset
  refine ⟨proper.named, fun other member => proper.traced other (mem_cons_of_mem _ member),
    fun mark reported => proper.reports mark (fewer reported), fun about listed same => ?_⟩
  have honest := proper.honest about listed same
  refine ⟨fun broadcast => ?_, fun elsewhere reported => honest.letter elsewhere (fewer reported), fun topic single concluded => ?_⟩
  · exact subset_nil.mp (honest.silent broadcast ▸ fewer)
  · exact (honest.answered topic single concluded).2

theorem Proper.silent (named : width < call.message.id.length ∨ ∃ message ∈ logged, call.message.id = message.id)
    (traced : ∀ effect ∈ call.effects, Traced width logged effect) (silent : ∀ effect ∈ call.effects, mark? effect = none) :
    Proper width logged call := by
  have none : marks call.effects = [] := filterMap_eq_nil_iff.mpr silent
  refine ⟨named, traced, by simp [none], fun message _ _ => ⟨fun _ => none, by simp [none], fun _ _ _ => .of_marks ?_⟩⟩
  simp [none]

end

section
variable {state next : State} {message : EMessage}

theorem Outstanding.mono (outstanding : Outstanding state message) (queue : state.queue ⊆ next.queue)
    (delays : ∀ record, state.wal.delays.lookup message.id = some record → ∃ entry, next.wal.delays.lookup message.id = some entry)
    (fetched : state.fetched ⊆ next.fetched) (calls : state.calls ⊆ next.calls) : Outstanding next message := by
  cases outstanding with
  | queued copy member waiting same => exact .queued copy (queue member) waiting same
  | delayed record found =>
    obtain ⟨entry, found⟩ := delays record found
    exact .delayed entry found
  | fetched record member same => exact .fetched record (fetched member) same
  | called call member same unsettled => exact .called call (calls member) same unsettled

theorem Outstanding.take {index copy call} (found : state.queue[index]? = some copy)
    (same : call.message.id = copy.message.id ∧ call.message.topic = copy.message.topic)
    (concludes : copy.message.id = message.id → copy.message.topic = message.topic → call.concludes = true →
      Settles message call.effects) (outstanding : Outstanding state message) :
    Outstanding { state with queue := state.queue.set index { copy with delivered := true }, calls := state.calls ++ [call] }
      message := by
  cases outstanding with
  | queued other member waiting about =>
    obtain ⟨place, held⟩ := mem_iff_getElem?.mp member
    by_cases here : index = place
    · subst here
      obtain rfl := Option.some.inj (found.symm.trans held)
      refine .called call (mem_append_right _ (mem_singleton_self call)) ⟨same.1.trans about.1, same.2.trans about.2⟩ ?_
      cases concluded : call.concludes with
      | false => exact .inl rfl
      | true => exact .inr (concludes about.1 about.2 concluded)
    · exact .queued other (mem_of_getElem? ((getElem?_set_ne here).trans held)) waiting about
  | delayed record held => exact .delayed record held
  | fetched record member about => exact .fetched record member about
  | called other member about unsettled => exact .called other (mem_append_left _ member) about unsettled

theorem Outstanding.fetch (now : SystemTime) (named : ∀ id record, state.wal.delays.lookup id = some record → id = record.message.id)
    (outstanding : Outstanding state message) :
    Outstanding { state with wal := (state.wal.fetchReady now).2, fetched := state.fetched ++ (state.wal.fetchReady now).1 }
      message := by
  cases outstanding with
  | queued copy member waiting same => exact .queued copy member waiting same
  | delayed record found =>
    by_cases due : message.id ∈ dueKeys now state.wal
    · refine .fetched record (mem_append_right _ ?_) (named _ _ found).symm
      rw [fetchReady_records]
      exact mem_filterMap.mpr ⟨message.id, due, found⟩
    · refine .delayed record ?_
      rw [fetchReady_lookup, if_neg due]
      exact found
  | fetched record member same => exact .fetched record (mem_append_left _ member) same
  | called call member same unsettled => exact .called call member same unsettled

theorem Outstanding.deliver {record call} (own : call.message = record.message)
    (concludes : record.message.id = message.id → record.message.topic = message.topic ∧
      (call.concludes = true → Settles message call.effects)) (outstanding : Outstanding state message) :
    Outstanding { state with fetched := state.fetched.erase record, calls := state.calls ++ [call] } message := by
  cases outstanding with
  | queued copy member waiting same => exact .queued copy member waiting same
  | delayed entry found => exact .delayed entry found
  | fetched other member same =>
    by_cases this : other = record
    · subst this
      obtain ⟨topic, settles⟩ := concludes same
      refine .called call (mem_append_right _ (mem_singleton_self call)) ⟨own ▸ same, own ▸ topic⟩ ?_
      cases concluded : call.concludes with
      | false => exact .inl rfl
      | true => exact .inr (settles concluded)
    · exact .fetched other ((mem_erase_of_ne this).mpr member) same
  | called other member about unsettled => exact .called other (mem_append_left _ member) about unsettled

theorem Outstanding.emit {index owner effect rest concludes}
    (found : state.calls[index]? = some ⟨owner, effect :: rest, concludes⟩)
    (unreported : ∀ sync, effect = .walSync sync → ¬ Settling message effect)
    (outstanding : Outstanding state message) :
    Outstanding { apply state effect with calls := state.calls.set index ⟨owner, rest, concludes⟩ } message := by
  have inside : index < state.calls.length := (List.getElem?_eq_some_iff.mp found).1
  have queue : state.queue ⊆ (apply state effect).queue := by
    cases effect with
    | publish | requeue => exact subset_append_left _ _
    | audit | walSync | schedule => exact Subset.refl _
  have fetched : (apply state effect).fetched = state.fetched := by cases effect <;> rfl
  cases outstanding with
  | queued copy member waiting same => exact .queued copy (queue member) waiting same
  | delayed record held =>
    cases effect with
    | walSync sync => exact .delayed record ((congrArg (AList.lookup message.id) (delays_sync sync)).trans held)
    | schedule entry =>
      obtain ⟨kept, held⟩ := schedule_kept entry (.inr ⟨record, held⟩)
      exact .delayed kept held
    | publish | requeue | audit => exact .delayed record held
  | fetched record member same => exact .fetched record (fetched ▸ member) same
  | called call member same unsettled =>
    obtain ⟨place, held⟩ := mem_iff_getElem?.mp member
    by_cases here : index = place
    · subst here
      obtain rfl := Option.some.inj (found.symm.trans held)
      have still : ⟨owner, rest, concludes⟩ ∈ state.calls.set index ⟨owner, rest, concludes⟩ := mem_set inside _
      obtain failed | ⟨settling, chosen, holds⟩ := unsettled
      · exact .called _ still same (.inl failed)
      · obtain rfl | later := mem_cons.mp chosen
        · cases settling with
          | walSync sync => exact absurd holds (unreported sync rfl)
          | publish other | requeue other => exact .queued { message := other } (by simp [apply]) rfl holds
          | schedule record =>
            obtain ⟨entry, held⟩ := @schedule_kept state.wal record message.id (.inl holds.symm)
            exact .delayed entry held
          | audit => exact holds.elim
        · exact .called _ still same (.inr ⟨settling, later, holds⟩)
    · exact .called call (mem_of_getElem? ((getElem?_set_ne here).trans held)) same unsettled

end

section
variable {width : Nat} {state : State} (kept : Kept width state)
include kept

theorem Kept.submit {message env trySend timeout} (business : isSystemTopic message.topic = false)
    (sized : message.id.length = width) (fresh : ∀ other ∈ state.logged, other.id ≠ message.id) :
    let outcome := (TopicRouter.send env message.topic message trySend timeout).outcome
    Kept width { state with
      wal := state.wal.append (WalRecord.fromMsg message)
      logged := state.logged ++ [message]
      calls := state.calls ++ [⟨message, outcome.1, outcome.2.isOk⟩] } := by
  intro outcome
  have long : ∀ other ∈ state.logged ++ [message], other.id.length = width := by
    intro other member
    obtain member | rfl := mem_concat_cases member
    · exact kept.sized other member
    · exact sized
  have included : message ∈ state.logged ++ [message] := mem_append_right _ (mem_singleton_self message)
  have own : Delayed width (state.logged ++ [message]) message := .inr ⟨message, included, rfl, rfl, rfl⟩
  have older : ∀ other ∈ state.logged, (state.wal.append (WalRecord.fromMsg message)).status other.id = state.wal.status other.id :=
    fun other member => (status_append _ _).trans (if_neg (fresh other member))
  refine ⟨?_, long, ?_, fun copy member => (kept.queued copy member).grow, ?_, fun record member => (kept.fetched record member).grow,
    ?_, ?_, ?_, ?_⟩
  · intro first member second also same
    obtain known | rfl := mem_concat_cases member
    · obtain old | rfl := mem_concat_cases also
      · exact kept.distinct first known second old same
      · exact absurd same (fresh first known)
    · obtain old | rfl := mem_concat_cases also
      · exact absurd same.symm (fresh second old)
      · rfl
  · intro other member
    obtain member | rfl := mem_concat_cases member
    · exact kept.business other member
    · exact business
  · intro id record found
    rw [delays_append] at found
    exact (kept.delayed id record found).imp_right Delayed.grow
  · intro call member
    obtain member | rfl := mem_concat_cases member
    · exact (kept.calls call member).grow sized fresh
    · refine .silent (.inr ⟨message, included, rfl⟩) (send_traced long own trySend timeout).outcome ?_
      have emits : EmitsOnly (fun effect => mark? effect = none) (TopicRouter.send env message.topic message trySend timeout) :=
        .send env (fun _ => rfl) (fun _ _ _ _ => rfl) fun _ _ => rfl
      exact emits.outcome
  · intro id record found
    obtain ⟨same, content, _⟩ | ⟨_, found⟩ := append_lookup found
    · exact ⟨content.symm ▸ included, same.trans (congrArg EMessage.id content.symm)⟩
    · exact (kept.records id record found).imp_left (mem_append_left _)
  · intro other member broadcast
    obtain member | rfl := mem_concat_cases member
    · exact (older other member).trans (kept.broadcast other member broadcast)
    · exact (status_append _ _).trans (if_pos rfl)
  · intro other member single pending
    obtain member | rfl := mem_concat_cases member
    · refine (kept.pending other member single ((older other member).symm.trans pending)).mono (Subset.refl _) ?_
        (Subset.refl _) (subset_append_left _ _)
      exact fun record found => ⟨record, (congrArg (AList.lookup other.id) (delays_append _)).trans found⟩
    · refine .called _ (mem_append_right _ (mem_singleton_self _)) ⟨rfl, rfl⟩ ?_
      cases concluded : outcome.2.isOk with
      | false => exact .inl rfl
      | true => exact .inr ((send_concludes ⟨rfl, rfl⟩ single business trySend timeout).outcome concluded).settles

theorem Kept.take {index copy toWorker attempts worker env run}
    (sound : Sound state (.take index toWorker attempts worker env run)) (found : state.queue[index]? = some copy)
    (topical : worker.topic = copy.message.topic) :
    let msg := { copy.message with toWorker, attempts }
    let outcome := (worker.processMsg env run msg).outcome
    Kept width { state with
      queue := state.queue.set index { copy with delivered := true }
      calls := state.calls ++ [⟨msg, outcome.1, worker.concludes run outcome⟩] } := by
  intro msg outcome
  obtain ⟨proper, concludes⟩ := kept.take_proper sound found topical
  refine { kept with queued := ?_, calls := ?_, pending := ?_ }
  · intro other member
    obtain member | rfl := mem_or_eq_of_mem_set member
    · exact kept.queued other member
    · exact kept.queued copy (mem_of_getElem? found)
  · intro call member
    obtain member | rfl := mem_concat_cases member
    · exact kept.calls call member
    · exact proper
  · intro message logged single pending
    refine (kept.pending message logged single pending).take found ⟨rfl, rfl⟩ fun id topic concluded => ?_
    exact (concludes message logged id topic concluded).settles

theorem Kept.fetch (now : SystemTime) :
    Kept width { state with
      wal := (state.wal.fetchReady now).2
      fetched := state.fetched ++ (state.wal.fetchReady now).1 } := by
  have status : ∀ id, (state.wal.fetchReady now).2.status id = state.wal.status id := by
    intro id
    simp only [DelayStore.status, records_fetchReady]
  refine { kept with delayed := ?_, fetched := ?_, records := ?_, broadcast := ?_, pending := ?_ }
  · intro id record found
    rw [fetchReady_lookup] at found
    split at found
    · cases found
    · exact kept.delayed id record found
  · intro record member
    obtain member | ready := mem_append.mp member
    · exact kept.fetched record member
    · rw [fetchReady_records] at ready
      obtain ⟨id, _, found⟩ := mem_filterMap.mp ready
      exact (kept.delayed id record found).2
  · intro id record found
    rw [records_fetchReady] at found
    exact kept.records id record found
  · intro message logged broadcast
    exact (status message.id).trans (kept.broadcast message logged broadcast)
  · intro message logged single pending
    refine (kept.pending message logged single ((status message.id).symm.trans pending)).fetch now fun id record found => ?_
    exact (kept.delayed id record found).1

theorem Kept.deliver {record env} (member : record ∈ state.fetched) :
    let sent := TopicRouter.send env record.message.topic { record.message with deliverAt := none } none none
    Kept width { state with
      fetched := state.fetched.erase record
      calls := state.calls ++ [⟨record.message, (deliverDelayed env record).outcome.1, sent.outcome.2.isOk⟩] } := by
  intro sent
  have delayed := kept.fetched record member
  refine { kept with fetched := ?_, calls := ?_, pending := ?_ }
  · exact fun other held => kept.fetched other (mem_of_mem_erase held)
  · intro call listed
    obtain listed | rfl := mem_concat_cases listed
    · exact kept.calls call listed
    · refine .silent ?_ ?_ ?_
      · exact delayed.imp_right fun ⟨message, listed, id, _⟩ => ⟨message, listed, id⟩
      · have emits : EmitsOnly (Traced width state.logged) (deliverDelayed env record) :=
          .ignore (send_traced_now kept.sized (by exact delayed) rfl none none)
        exact emits.outcome
      · have emits : EmitsOnly (fun effect => mark? effect = none) (deliverDelayed env record) :=
          .ignore (.send env (fun _ => rfl) (fun _ _ _ _ => rfl) fun _ _ => rfl)
        exact emits.outcome
  · intro message logged single pending
    refine (kept.pending message logged single pending).deliver rfl fun id => ?_
    obtain ⟨mode, topic⟩ := kept.delayed_logged delayed logged id
    refine ⟨topic, fun concluded => ?_⟩
    have sends : Succeeds sent (Concludes message) := by
      refine send_concludes ?_ ?_ ?_ none none
      · exact ⟨id, topic⟩
      · exact fun broadcast => single (mode.symm.trans broadcast)
      · exact topic ▸ kept.business message logged
    have effects : (deliverDelayed env record).outcome.1 = sent.outcome.1 := outcome_ignore sent
    exact effects ▸ (sends.outcome concluded).settles

theorem Kept.emit {index owner effect rest concludes}
    (found : state.calls[index]? = some ⟨owner, effect :: rest, concludes⟩) :
    Kept width { apply state effect with calls := state.calls.set index ⟨owner, rest, concludes⟩ } := by
  have proper := kept.calls _ (mem_of_getElem? found)
  have traced := proper.traced effect mem_cons_self
  have calls : ∀ call ∈ state.calls.set index ⟨owner, rest, concludes⟩, Proper width state.logged call := by
    intro call member
    obtain member | rfl := mem_or_eq_of_mem_set member
    · exact kept.calls call member
    · exact proper.rest
  cases effect with
  | audit record =>
    refine { kept with calls, pending := fun message logged single pending => ?_ }
    exact (kept.pending message logged single pending).emit found fun _ report => by cases report
  | publish other | requeue other =>
    refine { kept with calls, queued := fun copy member => ?_, pending := fun message logged single pending => ?_ }
    · obtain member | rfl := mem_concat_cases member
      · exact kept.queued copy member
      · exact traced
    · exact (kept.pending message logged single pending).emit found fun _ report => by cases report
  | schedule record =>
    have records : (state.wal.schedule record).records = state.wal.records := records_schedule record
    have status : ∀ id, (state.wal.schedule record).status id = state.wal.status id := by
      intro id
      rw [DelayStore.status, records, DelayStore.status]
    refine { kept with calls, delayed := fun id entry found => ?_, records := fun id entry found => ?_, broadcast := ?_, pending := ?_ }
    · obtain ⟨rfl, same⟩ | ⟨_, held⟩ := schedule_lookup found
      · exact ⟨congrArg EMessage.id same.symm, same ▸ traced⟩
      · exact kept.delayed id entry held
    · exact kept.records id entry (records ▸ found)
    · exact fun message logged broadcast => (status message.id).trans (kept.broadcast message logged broadcast)
    · intro message logged single pending
      refine (kept.pending message logged single ((status message.id).symm.trans pending)).emit found ?_
      exact fun _ report => by cases report
  | walSync sync =>
    have reported : (sync.messageId, sync.status) ∈ marks (.walSync sync :: rest) := mem_cons_self
    have owned : sync.messageId = owner.id := proper.reports _ reported
    refine { kept with calls, delayed := fun id entry found => ?_, records := fun id entry found => ?_, broadcast := ?_, pending := ?_ }
    · exact kept.delayed id entry ((congrArg (AList.lookup id) (delays_sync sync)).symm.trans found)
    · rw [show (apply state (.walSync sync)).wal = state.wal.sync sync from rfl, sync_lookup] at found
      obtain ⟨record, held, rfl⟩ := map_eq_some_iff.mp found
      obtain ⟨logged, named⟩ := kept.records id record held
      split
      · exact ⟨logged, named⟩
      · exact ⟨logged, named⟩
    · intro message logged broadcast
      refine (status_sync sync message.id).trans ?_
      rw [kept.broadcast message logged broadcast, map_some]
      split
      · next same =>
        have silent := (proper.honest message logged (owned.symm.trans same.symm)).silent broadcast
        rw [silent] at reported
        cases reported
      · rfl
    · intro message logged single pending
      have pending : (state.wal.sync sync).status message.id = some .pending := pending
      rw [status_sync] at pending
      obtain ⟨before, known, now⟩ := map_eq_some_iff.mp pending
      split at now
      · next same =>
        have about : owner.id = message.id := owned.symm.trans same.symm
        have honest := proper.honest message logged about
        have waiting : (message.id, .pending) ∈ marks (.walSync sync :: rest) := by rw [same, ← now]; exact reported
        have topic : owner.topic = message.topic := by
          by_contra elsewhere
          exact honest.letter elsewhere waiting
        refine .called ⟨owner, rest, concludes⟩ (List.mem_set (List.getElem?_eq_some_iff.mp found).1 _) ⟨about, topic⟩ ?_
        cases concluded : concludes with
        | false => exact .inl rfl
        | true =>
          refine .inr ((honest.answered topic single concluded).1 ?_)
          rw [same, ← now]
          rfl
      · next other =>
        subst now
        refine (kept.pending message logged single known).emit found fun _ _ settling => ?_
        exact other settling.1.symm

theorem Kept.step {event next} (sound : Sound state event) (stepped : LoggedWork.step width state event = some next) :
    Kept width next := by
  cases event with
  | submit message env trySend timeout =>
    obtain ⟨⟨sized, fresh⟩, rfl⟩ := guarded_step stepped
    exact kept.submit sound sized fresh
  | take index toWorker attempts worker env run =>
    simp only [LoggedWork.step] at stepped
    split at stepped
    · cases stepped
    · next copy found =>
      obtain ⟨topical, rfl⟩ := guarded_step stepped
      exact kept.take sound found topical
  | fetch now =>
    cases stepped
    exact kept.fetch now
  | deliver record env =>
    obtain ⟨member, rfl⟩ := guarded_step stepped
    exact kept.deliver member
  | emit index =>
    simp only [LoggedWork.step] at stepped
    split at stepped
    · next found =>
      cases stepped
      exact kept.emit found
    · cases stepped

end

def Blank (wal : DelayStore) : Prop := wal.records = ∅ ∧ wal.delays = ∅

theorem Blank.kept {wal} (blank : Blank wal) (width : Nat) : Kept width { wal } where
  distinct := by simp
  sized := by simp
  business := by simp
  queued := by simp
  delayed id record found := by simp [blank.2] at found
  fetched := by simp
  calls := by simp
  records id record found := by simp [blank.1] at found
  broadcast := by simp
  pending := by simp

theorem Kept.run {width wal events state} (blank : Blank wal)
    (sound : Along (LoggedWork.step width) Sound { wal } events)
    (ran : Foundations.run (LoggedWork.step width) { wal } events = some state) : Kept width state :=
  run_invariant (Kept width) (fun sound kept stepped => kept.step sound stepped) sound (blank.kept width) ran

end EventBase.Proofs.OutstandingCopies
