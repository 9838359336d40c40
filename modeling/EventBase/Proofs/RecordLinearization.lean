import EventBase.Proofs.WalRecords
import EventBase.RedisRecords

/-! The record plane of the Redis backend as an atomic object. `append` takes
effect at its `HSET`, `replay_pending` at its `HGETALL`, and `update_state` at its
`HSET`, or at its `HGET` if there is no record. The `HSET` of `update_state` writes
back everything it has read, so it must still be there. -/

namespace EventBase.Proofs.RecordLinearization
open Foundations WalRecords List Option AList

variable {messageId : String} {record : WalRecord} {store : RedisWal} {index : Nat}
    {op : RecordCall} {reply : WalReply}

def unnumbered (record : WalRecord) : WalRecord := { record with recordId := 0 }

/-- What one call does to the map of records and what it returns. -/
inductive AtomicRecords (records : Table WalRecord) : RecordCall → WalReply → Table WalRecord → Prop where
  | append (record : WalRecord) :
    AtomicRecords records (.append record) .done (records.insert record.message.id (unnumbered record))
  | updateState {messageId : String} {record : WalRecord} (status : WalRecordState)
      (found : records.lookup messageId = some record) :
    AtomicRecords records (.updateState messageId status) .done
      (records.insert messageId { record with status := status })
  | unknown {messageId : String} (status : WalRecordState) (missing : records.lookup messageId = none) :
    AtomicRecords records (.updateState messageId status) (.failed (.wal (.recordNotFound messageId))) records
  | replayPending {answer : List WalRecord}
      (pending : (answer.map unnumbered).Perm ((Table.values records).filter fun record => record.status = .pending)) :
    AtomicRecords records .replayPending (.records answer) records

def slot : RecordClient → Slot RecordCall WalReply
  | .idle => .idle
  | .minting call record | .storing call record _ => .invoked call (.append record)
  | .reading call messageId status | .writing call messageId status _ => .invoked call (.updateState messageId status)
  | .listing call => .invoked call .replayPending
  | .answered call op reply => .committed ⟨call, op, reply⟩

def abstraction (state : RecordClients) : AtomicObject (Table WalRecord) RecordCall WalReply :=
  ⟨mapValues unnumbered state.store.records, state.clients.map slot, state.history⟩

def writes (messageId : String) : RecordClient → Bool
  | .writing _ target _ _ => target = messageId
  | _ => false

/-- The step is not the `HSET` of an `append` between the two commands of an
`update_state` of the same message. -/
def undisturbed (state : RecordClients) : RecordEvent → Bool
  | .command index =>
    match state.clients[index]? with
    | some (.storing _ record _) => state.clients.all fun client => !writes record.message.id client
    | _ => true
  | _ => true

def body (record : WalRecord) : WalRecord := { record with recordId := 0, status := .pending }

def Backed (records : Table WalRecord) : RecordClient → Prop
  | .writing _ messageId _ record => ∃ current, records.lookup messageId = some current ∧ body current = body record
  | _ => True

def Sound (state : RecordClients) : Prop := ∀ client ∈ state.clients, Backed state.store.records client

theorem sound_init (store : RedisWal) (clients : Nat) : Sound (.init store clients) := by
  intro client member
  rw [eq_of_mem_replicate member]
  trivial

section
variable {records : Table WalRecord} {client : RecordClient}

theorem Backed.insert (backed : Backed records client) (apart : writes messageId client = false)
    (record : WalRecord) : Backed (records.insert messageId record) client := by
  cases client with
  | writing call target status read =>
    obtain ⟨current, found, same⟩ := backed
    have other : target ≠ messageId := by simpa [writes] using apart
    exact ⟨current, by rw [lookup_insert_ne other, found], same⟩
  | _ => trivial

theorem Backed.setStatus (backed : Backed records client) {current} (found : records.lookup messageId = some current)
    (same : body current = body record) (status : WalRecordState) :
    Backed (Table.setStatus records messageId record status) client := by
  cases client with
  | writing call target other read =>
    obtain ⟨held, lookup, equal⟩ := backed
    by_cases target = messageId
    · next shared =>
      subst shared
      cases found.symm.trans lookup
      exact ⟨_, lookup_insert _, same.symm.trans equal⟩
    · next apart => exact ⟨held, by rw [Table.setStatus, lookup_insert_ne apart, lookup], equal⟩
  | _ => trivial

theorem mapValues_setStatus {current} (same : body current = body record) (status : WalRecordState) :
    mapValues unnumbered (Table.setStatus records messageId record status) =
      (mapValues unnumbered records).insert messageId { unnumbered current with status := status } := by
  have fields : unnumbered { record with status := status } = { unnumbered current with status := status } := by
    have equal := congrArg (fun record => ({ record with status := status } : WalRecord)) same
    exact equal.symm
  rw [Table.setStatus, mapValues_insert, fields]

theorem replayPending_perm (store : RedisWal) :
    (store.replayPending.map unnumbered).Perm
      ((Table.values (mapValues unnumbered store.records)).filter fun record => record.status = .pending) := by
  rw [Table.values, values_mapValues, List.filter_map]
  exact (List.mergeSort_perm _ _).map unnumbered

end

section
variable {state next : RecordClients}

theorem Sound.set (sound : Sound state) {client history} (own : Backed store.records client)
    (others : ∀ other ∈ state.clients, Backed state.store.records other → Backed store.records other) :
    Sound ⟨store, state.clients.set index client, history⟩ := by
  intro other member
  obtain earlier | rfl := mem_or_eq_of_mem_set member
  · exact others other earlier (sound other earlier)
  · exact own

theorem slot_at {client} (found : state.clients[index]? = some client) :
    (abstraction state).slots[index]? = some (slot client) := by
  simp [abstraction, found]

theorem abstraction_set (store : RedisWal) (index : Nat) (client : RecordClient) (history : List (CallEvent RecordCall WalReply)) :
    abstraction ⟨store, state.clients.set index client, history⟩ =
      ⟨mapValues unnumbered store.records, (abstraction state).slots.set index (slot client), history⟩ := by
  simp only [abstraction, map_set]

theorem start_simulates (sound : Sound state)
    (stepped : state.step (.start index op) = some next) :
    Sound next ∧ AtomicObject.Step AtomicRecords (abstraction state) (abstraction next) := by
  obtain ⟨client, found, moved⟩ := bind_eq_some_iff.mp stepped
  obtain ⟨after, started, arrived⟩ := bind_eq_some_iff.mp moved
  cases arrived
  have begun : client = .idle ∧ slot after = .invoked state.history.length op ∧ Backed state.store.records after := by
    cases client with
    | idle =>
      cases op with
      | append record => cases (ite_none_right_eq_some.mp started).2; exact ⟨rfl, rfl, trivial⟩
      | _ => cases started; exact ⟨rfl, rfl, trivial⟩
    | _ => cases started
  obtain ⟨rfl, shown, backed⟩ := begun
  refine ⟨sound.set backed fun _ _ kept => kept, ?_⟩
  rw [abstraction_set, shown]
  exact .invoke index op (slot_at found)

theorem unchanged_simulates {client after} (found : state.clients[index]? = some client)
    (shown : slot after = slot client) (records : store.records = state.store.records) :
    Relation.ReflTransGen (AtomicObject.Step AtomicRecords) (abstraction state)
      (abstraction ⟨store, state.clients.set index after, state.history⟩) := by
  have same : abstraction ⟨store, state.clients.set index after, state.history⟩ = abstraction state := by
    simp only [abstraction, records, map_set_same slot found shown]
  rw [same]

theorem commit_simulates {client call} (found : state.clients[index]? = some client)
    (shown : slot client = .invoked call op)
    (allowed : AtomicRecords (mapValues unnumbered state.store.records) op reply (mapValues unnumbered store.records)) :
    AtomicObject.Step AtomicRecords (abstraction state)
      (abstraction ⟨store, state.clients.set index (.answered call op reply), state.history⟩) := by
  have running : (abstraction state).slots[index]? = some (.invoked call op) := by rw [slot_at found, shown]
  rw [abstraction_set]
  exact .commit index ⟨call, op, reply⟩ _ running allowed

theorem command_simulates (sound : Sound state) (admitted : undisturbed state (.command index) = true)
    (stepped : state.step (.command index) = some next) :
    Sound next ∧ Relation.ReflTransGen (AtomicObject.Step AtomicRecords) (abstraction state) (abstraction next) := by
  obtain ⟨client, found, moved⟩ := bind_eq_some_iff.mp stepped
  obtain ⟨⟨after, store⟩, commanded, arrived⟩ := bind_eq_some_iff.mp moved
  cases arrived
  cases client with
  | idle => cases commanded
  | answered call op reply => cases commanded
  | minting call record =>
    cases commanded
    exact ⟨sound.set trivial fun _ _ kept => kept, unchanged_simulates found rfl rfl⟩
  | storing call record recordId =>
    cases commanded
    simp only [undisturbed, found, List.all_eq_true, Bool.not_eq_true'] at admitted
    refine ⟨sound.set trivial fun other member kept => kept.insert (admitted other member) _, .single ?_⟩
    refine commit_simulates found rfl ?_
    rw [mapValues_insert]
    exact .append record
  | reading call messageId status =>
    simp only [RecordClient.command] at commanded
    cases lookup : state.store.records.lookup messageId with
    | some record =>
      rw [lookup] at commanded
      cases commanded
      exact ⟨sound.set ⟨record, lookup, rfl⟩ fun _ _ kept => kept, unchanged_simulates found rfl rfl⟩
    | none =>
      rw [lookup] at commanded
      cases commanded
      refine ⟨sound.set trivial fun _ _ kept => kept, .single (commit_simulates found rfl ?_)⟩
      exact .unknown status (by rw [lookup_mapValues, lookup, map_none])
  | writing call messageId status record =>
    cases commanded
    obtain ⟨current, lookup, same⟩ := sound _ (mem_of_getElem? found)
    refine ⟨sound.set trivial fun _ _ kept => kept.setStatus lookup same status, .single ?_⟩
    refine commit_simulates found rfl ?_
    rw [mapValues_setStatus same]
    exact .updateState status (by rw [lookup_mapValues, lookup, map_some])
  | listing call =>
    cases commanded
    refine ⟨sound.set trivial fun _ _ kept => kept, .single (commit_simulates found rfl ?_)⟩
    exact .replayPending (replayPending_perm state.store)

theorem finish_simulates (sound : Sound state) (stepped : state.step (.finish index) = some next) :
    Sound next ∧ AtomicObject.Step AtomicRecords (abstraction state) (abstraction next) := by
  obtain ⟨client, found, moved⟩ := bind_eq_some_iff.mp stepped
  cases client with
  | answered call op reply =>
    cases moved
    refine ⟨sound.set trivial fun _ _ kept => kept, ?_⟩
    rw [abstraction_set]
    exact .respond index ⟨call, op, reply⟩ (slot_at found)
  | _ => cases moved

theorem step_simulates {event} (sound : Sound state) (admitted : undisturbed state event = true)
    (stepped : state.step event = some next) :
    Sound next ∧ Relation.ReflTransGen (AtomicObject.Step AtomicRecords) (abstraction state) (abstraction next) := by
  cases event with
  | start index op => exact (start_simulates sound stepped).imp_right .single
  | command index => exact command_simulates sound admitted stepped
  | finish index => exact (finish_simulates sound stepped).imp_right .single

/-- In a run in which no `append` writes between the two commands of an
`update_state` of its message, the history is linearizable, from any store and for
any number of clients. -/
theorem undisturbed_linearizable {store : RedisWal} {clients : Nat} {events : List RecordEvent} {final : RecordClients}
    (admitted : Along RecordClients.step (fun state event => undisturbed state event = true) (.init store clients) events)
    (ran : run RecordClients.step (.init store clients) events = some final) :
    Linearizable AtomicRecords (mapValues unnumbered store.records) final.history := by
  have started : abstraction (.init store clients) = .start (mapValues unnumbered store.records) clients := by
    simp [abstraction, RecordClients.init, AtomicObject.start, slot]
  have simulated := run_invariant
    (fun state => Sound state ∧
      Relation.ReflTransGen (AtomicObject.Step AtomicRecords) (abstraction (.init store clients)) (abstraction state))
    (fun allowed kept stepped => by
      obtain ⟨sound, steps⟩ := step_simulates kept.1 allowed stepped
      exact ⟨sound, kept.2.trans steps⟩)
    admitted ⟨sound_init store clients, .refl⟩ ran
  rw [started] at simulated
  exact AtomicObject.linearizable simulated.2

private def first : WalRecord := WalRecord.fromMsg (EMessage.new "m" 0 "orders" [1] .standard none)

private def second : WalRecord := WalRecord.fromMsg (EMessage.new "m" 0 "orders" [2] .standard none)

private def whole (client : Nat) (op : RecordCall) : List RecordEvent :=
  [.start client op, .command client, .command client, .finish client]

private def inTurn : List RecordEvent := whole 0 (.append first) ++ whole 1 (.updateState "m" .pending)

theorem updated_order_linearizable :
    ∃ final, run RecordClients.step (.init .empty 2) inTurn = some final ∧
      Linearizable AtomicRecords (mapValues unnumbered RedisWal.empty.records) final.history := by
  have admitted : Along RecordClients.step (fun state event => undisturbed state event = true) (.init .empty 2) inTurn := by
    decide
  exact ⟨_, rfl, undisturbed_linearizable admitted rfl⟩

end

section
variable {records final : Table WalRecord} {order : List (Completed RecordCall WalReply)}

def messageAt (records : Table WalRecord) (messageId : String) : Option EMessage :=
  (records.lookup messageId).map WalRecord.message

theorem AtomicRecords.messageAt (allowed : AtomicRecords records op reply final)
    (other : ∀ record, op = .append record → record.message.id ≠ messageId) :
    messageAt final messageId = messageAt records messageId := by
  cases allowed with
  | append record => rw [RecordLinearization.messageAt, lookup_insert_ne (other record rfl).symm]; rfl
  | @updateState target record status found =>
    by_cases same : messageId = target
    · subst same
      rw [RecordLinearization.messageAt, RecordLinearization.messageAt, lookup_insert, found]
      rfl
    · rw [RecordLinearization.messageAt, lookup_insert_ne same]; rfl
  | unknown status missing => rfl
  | replayPending pending => rfl

theorem AtomicRecords.appended (allowed : AtomicRecords records (.append record) reply final) :
    RecordLinearization.messageAt final record.message.id = some record.message := by
  cases allowed with
  | append => rw [RecordLinearization.messageAt, lookup_insert]; rfl

theorem AtomicRecords.keyed (allowed : AtomicRecords records op reply final)
    (keyed : Keyed records) : Keyed final := by
  cases allowed with
  | append => exact keyed.insert rfl
  | @updateState _ record _ found => exact keyed.insert (keyed _ record found)
  | unknown | replayPending => exact keyed

theorem legal_keyed (legal : Legal AtomicRecords records order final) (keyed : Keyed records) : Keyed final := by
  induction order generalizing records with
  | nil => cases legal; exact keyed
  | cons done rest ih =>
    obtain ⟨next, allowed, legal⟩ := legal
    exact ih legal (allowed.keyed keyed)

theorem legal_messageAt (legal : Legal AtomicRecords records order final)
    (others : ∀ done ∈ order, ∀ record, done.op = .append record → record.message.id ≠ messageId) :
    messageAt final messageId = messageAt records messageId := by
  induction order generalizing records with
  | nil => cases legal; rfl
  | cons done rest ih =>
    obtain ⟨next, allowed, legal⟩ := legal
    rw [ih legal fun later member => others later (mem_cons_of_mem _ member)]
    exact allowed.messageAt (others done mem_cons_self)

theorem AtomicRecords.answered {answer} (allowed : AtomicRecords records .replayPending (.records answer) final)
    (keyed : Keyed records) (member : record ∈ answer) :
    RecordLinearization.messageAt records record.message.id = some record.message := by
  cases allowed with
  | replayPending pending =>
    have stored := (mem_filter.mp (pending.subset (mem_map_of_mem member))).1
    obtain ⟨⟨key, value⟩, entry, same⟩ := mem_map.mp stored
    have lookup : records.lookup key = some (unnumbered record) := mem_lookup_iff.mpr (same ▸ entry)
    have named : record.message.id = key := keyed _ (unnumbered record) lookup
    rw [RecordLinearization.messageAt, named, lookup]
    rfl

/-- After an `append`, a `replay_pending` returns no other message under its id
unless there was another `append` in between. -/
theorem replayed_appended {before between after append replay appended answer}
    (legal : Legal AtomicRecords records (before ++ append :: (between ++ replay :: after)) final)
    (keyed : Keyed records) (appends : append.op = .append appended) (replays : replay.op = .replayPending)
    (replies : replay.reply = .records answer)
    (others : ∀ done ∈ between, ∀ record, done.op = .append record → record.message.id ≠ appended.message.id)
    (member : record ∈ answer) (same : record.message.id = appended.message.id) : record.message = appended.message := by
  obtain ⟨atAppend, legalBefore, atNext, allowedAppend, legalRest⟩ := legal_append.mp legal
  obtain ⟨atReplay, legalBetween, _, allowedReplay, _⟩ := legal_append.mp legalRest
  rw [appends] at allowedAppend
  rw [replays, replies] at allowedReplay
  have keyedNext := allowedAppend.keyed (legal_keyed legalBefore keyed)
  have stored := allowedAppend.appended
  have kept := legal_messageAt legalBetween others
  have answered := allowedReplay.answered (legal_keyed legalBetween keyedNext) member
  rw [same, kept, stored] at answered
  exact (Option.some.inj answered).symm

end

/-- A client sets the status of a record to what it is; between its two commands
the record is replaced, and the replacement is gone afterwards. -/
private def overtaken : List RecordEvent :=
  whole 0 (.append first) ++ [.start 0 (.updateState "m" .pending), .command 0] ++ whole 1 (.append second) ++
    [.command 0, .finish 0, .start 0 .replayPending, .command 0, .finish 0]

private def stale : RedisWal :=
  { RedisWal.empty with records := (∅ : Table WalRecord).insert "m" { first with recordId := 1 }, idCounter := 2 }

private def overtakenHistory (answer : List WalRecord) : List (CallEvent RecordCall WalReply) :=
  [.invoke 0 (.append first), .respond 0 .done, .invoke 2 (.updateState "m" .pending), .invoke 3 (.append second),
    .respond 3 .done, .respond 2 .done, .invoke 6 .replayPending, .respond 6 (.records answer)]

private theorem overtaken_runs : run RecordClients.step (.init .empty 2) overtaken =
    some ⟨stale, [.idle, .idle], overtakenHistory stale.replayPending⟩ := rfl

theorem overtaken_append_lost :
    ∃ final, run RecordClients.step (.init .empty 2) overtaken = some final ∧
      ¬ Linearizable AtomicRecords (mapValues unnumbered RedisWal.empty.records) final.history := by
  refine ⟨_, overtaken_runs, ?_⟩
  have replayed : stale.replayPending = [{ first with recordId := 1 }] := by
    simp [RedisWal.replayPending, stale, Table.values, first, WalRecord.fromMsg]
  rw [replayed]
  rintro ⟨order, last, linear⟩
  obtain ⟨earlier, earlierIn, earlierCall, earlierReply⟩ := linear.responded 0 .done (by simp [overtakenHistory])
  obtain ⟨append, appendIn, appendCall, appendReply⟩ := linear.responded 3 .done (by simp [overtakenHistory])
  obtain ⟨replay, replayIn, replayCall, replayReply⟩ :=
    linear.responded 6 (.records [{ first with recordId := 1 }]) (by simp [overtakenHistory])
  have appendOp : append.op = .append second := by
    simpa [overtakenHistory, appendCall] using linear.invoked append appendIn
  have replayOp : replay.op = .replayPending := by
    simpa [overtakenHistory, replayCall] using linear.invoked replay replayIn
  obtain ⟨before, middle, after, rfl, apart⟩ := linear.between earlierIn appendIn replayIn
    (by rw [earlierCall, earlierReply, appendCall, appendOp]; exact .cons _ (.cons_cons _ (.cons _ (.cons_cons _ (nil_sublist _)))))
    (by
      rw [appendCall, appendReply, replayCall, replayOp]
      exact .cons _ (.cons _ (.cons _ (.cons _ (.cons_cons _ (.cons _ (.cons_cons _ (nil_sublist _))))))))
  have others : ∀ done ∈ middle, ∀ record, done.op = .append record → record.message.id ≠ second.message.id := by
    intro done member record appends
    have invoked := linear.invoked done (by simp [member])
    have distinct := apart done member
    rw [appends] at invoked
    simp [overtakenHistory, earlierCall, appendCall] at invoked distinct
    omega
  have keyed : Keyed (mapValues unnumbered RedisWal.empty.records) := by
    intro messageId record lookup
    simp [RedisWal.empty] at lookup
  have same := replayed_appended linear.legal keyed appendOp replayOp replayReply others mem_cons_self rfl
  exact absurd same (by decide)

end EventBase.Proofs.RecordLinearization
