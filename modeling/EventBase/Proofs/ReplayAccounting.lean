import EventBase.MemoryHistory
import EventBase.Proofs.RepeatedWork

/-! The accounts of `TopicRouter::replay`: every pending record that passes the filter
has one turn, and the summary is made up of the turns. -/

namespace EventBase.Proofs.ReplayAccounting
open Foundations TaskLogic RecoverySteps RepeatedWork List AList WalRecord TopicRouter DelayStore

variable {record : WalRecord} {msg : EMessage} {store : DelayStore}

def Ran {α : Type} (task : TaskM α) (added : List Effect) (result : Except CoreError α) : Prop :=
  ∃ session,
    match task session with
    | .ok value final => final.effects = session.effects ++ added ∧ result = .ok value
    | .error error final => final.effects = session.effects ++ added ∧ result = .error error

theorem Ran.emits {α : Type} {task : TaskM α} {allowed : Effect → Prop} (only : EmitsOnly allowed task) :
    Emits task (Ran task) := by
  intro session
  obtain ⟨added, holds⟩ := only session
  refine ⟨added, ?_⟩
  cases ran : task session with
  | ok value final =>
    rw [ran] at holds
    refine ⟨holds.1, session, ?_⟩
    rw [ran]
    exact ⟨holds.1, rfl⟩
  | error error final =>
    rw [ran] at holds
    refine ⟨holds.1, session, ?_⟩
    rw [ran]
    exact ⟨holds.1, rfl⟩

theorem Ran.only {α : Type} {task : TaskM α} {added} {result : Except CoreError α} {allowed : Effect → Prop}
    (ran : Ran task added result) (only : EmitsOnly allowed task) : ∀ effect ∈ added, allowed effect := by
  obtain ⟨session, left⟩ := ran
  obtain ⟨other, holds⟩ := only session
  split at left
  · next value final here =>
    rw [here] at holds
    have same := append_cancel_left (left.1.symm.trans holds.1)
    exact same ▸ holds.2
  · next error final here =>
    rw [here] at holds
    have same := append_cancel_left (left.1.symm.trans holds.1)
    exact same ▸ holds.2

structure Turn where
  record : WalRecord
  time : SystemTime
  effects : List Effect
  result : Except CoreError Unit

namespace Turn

def delayed (turn : Turn) : Bool := turn.record.inFuture turn.time

def recovered (turn : Turn) : Bool := !turn.delayed && turn.result.isOk

def error? (turn : Turn) : Option (String × CoreError) :=
  match turn.result with
  | .ok () => none
  | .error error => some (turn.record.message.id, error)

def message (turn : Turn) : EMessage := { turn.record.message with deliverAt := none }

/-- A record of the future is put in the delay store as it is, and any other is sent. -/
structure Holds (env : Env) (turn : Turn) : Prop where
  clock : ∃ tick, env.clock tick = turn.time
  scheduled : turn.delayed = true → turn.effects = [.schedule (fromMsg turn.record.message)] ∧ turn.result = .ok ()
  sent : turn.delayed = false →
    Ran (send env turn.message.topic turn.message none none) turn.effects turn.result

end Turn

structure Accounts (turns : List Turn) (summary : ReplaySummary) : Prop where
  delayed : summary.delayed = turns.countP Turn.delayed
  recovered : summary.recovered = turns.countP Turn.recovered
  errors : summary.errors = turns.filterMap Turn.error?

def park (store : DelayStore) : List Effect → DelayStore
  | [] => store
  | .schedule record :: rest => park (store.schedule record) rest
  | .audit _ :: rest | .walSync _ :: rest | .publish _ :: rest | .requeue _ :: rest => park store rest

/-- What the calls of a `Wal` can make of an empty one. `uuid` and `createdAt` are what
the memory backend draws for a placeholder. -/
inductive Logged (backend : WalBackend) : DelayStore → Prop
  | inProcess : Logged backend (.inProcess .empty)
  | redis : Logged backend (.redis .empty)
  | append {store : DelayStore} (before : Logged backend store) (record : WalRecord) : Logged backend (store.append record)
  | updateState {store : DelayStore} (before : Logged backend store) (messageId : String) (status : WalRecordState)
      (uuid : String) (createdAt : SystemTime) :
    Logged backend (store.updateState backend messageId status (MemoryWal.placeholder uuid createdAt))
  | schedule {store : DelayStore} (before : Logged backend store) (record : WalRecord) : Logged backend (store.schedule record)
  | fetchReady {store : DelayStore} (before : Logged backend store) (time : SystemTime) :
    Logged backend (store.fetchReady time).2
  | remove {store : WalStore} (before : Logged backend (.inProcess store)) (messageId : String) :
    Logged backend (.inProcess (store.removeScheduled messageId))
  | removeRedis {store : RedisWal} (before : Logged backend (.redis store)) (messageId : String) :
    Logged backend (.redis (store.removeScheduled messageId))

def note (summary : ReplaySummary) (turn : Turn) : ReplaySummary where
  delayed := summary.delayed + if turn.delayed then 1 else 0
  recovered := summary.recovered + if turn.recovered then 1 else 0
  errors := summary.errors ++ turn.error?.toList

section
variable {env : Env}

theorem isFuture_reads {post}
    (holds : ∀ tick, post [] (.ok (record.inFuture (env.clock tick)))) : Emits (isFuture env record.message) post := by
  unfold isFuture
  split
  · next deliverAt dated =>
    apply Emits.bind
    apply now_emits
    intro tick
    apply Emits.pure
    have read := holds tick
    simp only [inFuture, dated] at read
    exact read
  · next undated =>
    apply Emits.pure
    have read := holds 0
    simp only [inFuture, undated] at read
    exact read

theorem send_only (topic : String) (immediate : msg.deliverAt = none) :
    EmitsOnly (fun effect => ∀ record, effect ≠ .schedule record) (send env topic msg none none) := by
  apply EmitsOnly.send
  · intro delayed
    rw [immediate] at delayed
    cases delayed
  · intro _ _ info _ record same
    cases same
  · intro _ _ record same
    cases same

theorem replayRecord_turn (summary : ReplaySummary) (record : WalRecord) :
    Emits (replayRecord env summary record) fun added result => ∀ after, result = .ok after →
      ∃ turn : Turn, turn.record = record ∧ turn.effects = added ∧ turn.Holds env ∧ after = note summary turn := by
  apply Emits.bind
  apply isFuture_reads
  intro tick
  apply Emits.cond
  · intro future
    apply Emits.bind
    apply schedule_emits
    · intro _ _
      apply Emits.pure
      rintro after ⟨⟩
      refine ⟨⟨record, env.clock tick, [.schedule (fromMsg record.message)], .ok ()⟩, rfl, rfl, ⟨⟨tick, rfl⟩, ?_, ?_⟩, ?_⟩
      · exact fun _ => ⟨rfl, rfl⟩
      · exact fun present => absurd (future.symm.trans present) nofun
      · simp [note, Turn.delayed, Turn.recovered, Turn.error?, future]
    · intro _ _ _ after failed
      cases failed
  · intro present
    have now : record.inFuture (env.clock tick) = false := by simpa using present
    apply Emits.recover
    apply Emits.bind
    apply (Ran.emits (send_only record.message.topic rfl)).weaken
    intro added result ran
    cases result with
    | ok value =>
      apply Emits.pure
      rintro after ⟨⟩
      refine ⟨⟨record, env.clock tick, added, .ok ()⟩, rfl, (append_nil added).symm, ⟨⟨tick, rfl⟩, ?_, ?_⟩, ?_⟩
      · exact fun future => absurd (now.symm.trans future) nofun
      · exact fun _ => ran
      · simp [note, Turn.delayed, Turn.recovered, Turn.error?, now, Except.isOk, Except.toBool]
    | error error =>
      rintro after ⟨⟩
      refine ⟨⟨record, env.clock tick, added, .error error⟩, rfl, rfl, ⟨⟨tick, rfl⟩, ?_, ?_⟩, ?_⟩
      · exact fun future => absurd (now.symm.trans future) nofun
      · exact fun _ => ran
      · simp [note, Turn.delayed, Turn.recovered, Turn.error?, now, Except.isOk, Except.toBool]

theorem replayRecords_turns (records : List WalRecord) (summary : ReplaySummary) :
    Emits (records.foldlM (replayRecord env) summary) fun added result => ∀ after, result = .ok after →
      ∃ turns : List Turn, turns.map Turn.record = records ∧ turns.flatMap Turn.effects = added ∧
        (∀ turn ∈ turns, turn.Holds env) ∧ after = turns.foldl note summary := by
  induction records generalizing summary with
  | nil =>
    apply Emits.pure
    rintro after ⟨⟩
    exact ⟨[], rfl, rfl, by simp, rfl⟩
  | cons record rest ih =>
    rw [foldlM_cons]
    apply Emits.bind
    apply (replayRecord_turn summary record).weaken
    intro added result first
    cases result with
    | error error =>
      intro after failed
      cases failed
    | ok middle =>
      apply (ih middle).weaken
      intro more result later after returned
      obtain ⟨turn, same, effects, holds, rfl⟩ := first middle rfl
      obtain ⟨turns, records, others, each, rfl⟩ := later after returned
      refine ⟨turn :: turns, ?_, ?_, ?_, rfl⟩
      · rw [map_cons, same, records]
      · rw [flatMap_cons, effects, others]
      · exact forall_mem_cons.mpr ⟨holds, each⟩

end

theorem foldl_note (turns : List Turn) (summary : ReplaySummary) :
    (turns.foldl note summary).delayed = summary.delayed + turns.countP Turn.delayed ∧
      (turns.foldl note summary).recovered = summary.recovered + turns.countP Turn.recovered ∧
      (turns.foldl note summary).errors = summary.errors ++ turns.filterMap Turn.error? := by
  induction turns generalizing summary with
  | nil => simp
  | cons turn rest ih =>
    obtain ⟨delayed, recovered, errors⟩ := ih (note summary turn)
    rw [foldl_cons, delayed, recovered, errors]
    refine ⟨?_, ?_, ?_⟩
    · rw [countP_cons, note, Nat.add_assoc, Nat.add_comm (ite _ _ _)]
    · rw [countP_cons, note, Nat.add_assoc, Nat.add_comm (ite _ _ _)]
    · rw [note, append_assoc]
      cases noted : turn.error? <;> simp [noted]

theorem total_turns {env} {turns : List Turn} (holds : ∀ turn ∈ turns, turn.Holds env) :
    turns.countP Turn.recovered + turns.countP Turn.delayed + (turns.filterMap Turn.error?).length = turns.length := by
  induction turns with
  | nil => rfl
  | cons turn rest ih =>
    obtain ⟨here, others⟩ := forall_mem_cons.mp holds
    have counted := ih others
    rw [countP_cons, countP_cons, length_cons]
    cases future : turn.delayed with
    | true =>
      have succeeded := (here.scheduled future).2
      have silent : turn.error? = none := by rw [Turn.error?, succeeded]
      have column : turn.recovered = false := by rw [Turn.recovered, future]; rfl
      rw [filterMap_cons_none silent, column, if_neg nofun, if_pos rfl]
      omega
    | false =>
      cases answer : turn.result with
      | ok =>
        have silent : turn.error? = none := by rw [Turn.error?, answer]
        have column : turn.recovered = true := by rw [Turn.recovered, future, answer]; rfl
        rw [filterMap_cons_none silent, column, if_pos rfl, if_neg nofun]
        omega
      | error error =>
        have noted : turn.error? = some (turn.record.message.id, error) := by rw [Turn.error?, answer]
        have column : turn.recovered = false := by rw [Turn.recovered, future, answer]; rfl
        rw [filterMap_cons_some noted, column, if_neg nofun, length_cons]
        omega

/-- Only a placeholder can sit under an id that is not its message's, and it has no deadline. -/
def Filed (records : Table WalRecord) : Prop :=
  ∀ messageId record, records.lookup messageId = some record → record.message.deliverAt.isSome = true →
    record.message.id = messageId

theorem Filed.insert {records messageId} (filed : Filed records)
    (key : record.message.deliverAt.isSome = true → record.message.id = messageId) :
    Filed (records.insert messageId record) := by
  intro other found present dated
  obtain ⟨rfl, rfl⟩ | ⟨-, stored⟩ := lookup_insert_cases present
  · exact key dated
  · exact filed other found stored dated

theorem Filed.setStatus {records messageId} (filed : Filed records) (present : records.lookup messageId = some record)
    (status : WalRecordState) :
    Filed (Table.setStatus records messageId record status) := by
  apply filed.insert
  intro dated
  exact filed messageId record present dated

theorem Filed.updateState (backend : WalBackend) (messageId : String) (status : WalRecordState)
    (uuid : String) (createdAt : SystemTime) (filed : Filed store.records) :
    Filed (store.updateState backend messageId status (MemoryWal.placeholder uuid createdAt)).records := by
  cases store with
  | redis store =>
    simp only [updateState, RedisWal.apply, RedisWal.updateState, records] at filed ⊢
    cases present : store.records.lookup messageId with
    | none => exact filed
    | some record => exact filed.setStatus present status
  | inProcess store =>
    cases backend with
    | memory =>
      simp only [updateState, WalBackend.updateState, MemoryWal.updateState, records] at filed ⊢
      cases present : store.records.lookup messageId with
      | none =>
        apply filed.insert
        intro dated
        cases dated
      | some record => exact filed.setStatus present status
    | persistent =>
      simp only [updateState, WalBackend.updateState, PersistentWal.apply, PersistentWal.updateState,
        records] at filed ⊢
      cases present : store.records.lookup messageId with
      | none => exact filed
      | some record => exact filed.setStatus present status

theorem Logged.filed {backend} (logged : Logged backend store) : Filed store.records := by
  induction logged with
  | inProcess | redis =>
    intro _ _ present
    cases present
  | @append store before record filed =>
    cases store with
    | inProcess store => exact filed.insert fun _ => rfl
    | redis store => exact filed.insert fun _ => rfl
  | updateState before messageId status uuid createdAt filed => exact filed.updateState backend messageId status uuid createdAt
  | @schedule store before record filed => cases store <;> exact filed
  | @fetchReady store before time filed =>
    cases store with
    | inProcess store => exact filed
    | redis store => simpa only [DelayStore.fetchReady, WalInterchange.redis_fetchReady, DelayStore.records] using filed
  | remove before messageId filed => exact filed
  | removeRedis before messageId filed => exact filed

theorem lookup_schedule_self (store : DelayStore) (record : WalRecord) :
    ∃ entry, (store.schedule record).delays.lookup record.message.id = some entry ∧ entry.message = record.message := by
  cases store with
  | inProcess store => exact ⟨_, lookup_insert _, rfl⟩
  | redis store => exact ⟨_, lookup_insert _, rfl⟩

theorem lookup_schedule_ne (store : DelayStore) {id} (other : id ≠ record.message.id) :
    (store.schedule record).delays.lookup id = store.delays.lookup id := by
  cases store with
  | inProcess store => exact lookup_insert_ne other
  | redis store => exact lookup_insert_ne other

def Parked (store : DelayStore) (msg : EMessage) : Prop := ∃ entry, store.delays.lookup msg.id = some entry ∧ entry.message = msg

theorem Parked.schedule
    (parked : Parked store msg ∨ record.message = msg) (same : record.message.id = msg.id → record.message = msg) :
    Parked (store.schedule record) msg := by
  by_cases here : record.message.id = msg.id
  · obtain ⟨entry, found, stored⟩ := lookup_schedule_self store record
    rw [here] at found
    exact ⟨entry, found, stored.trans (same here)⟩
  · obtain ⟨entry, found, stored⟩ | equal := parked
    · exact ⟨entry, (lookup_schedule_ne store (Ne.symm here)).trans found, stored⟩
    · exact absurd (congrArg EMessage.id equal) here

theorem parked_park {effects} (parked : Parked store msg ∨ ∃ record, .schedule record ∈ effects ∧ record.message = msg)
    (same : ∀ record, .schedule record ∈ effects → record.message.id = msg.id → record.message = msg) :
    Parked (park store effects) msg := by
  induction effects generalizing store with
  | nil =>
    obtain held | ⟨record, listed, -⟩ := parked
    · exact held
    · cases listed
  | cons effect rest ih =>
    have others : ∀ record, .schedule record ∈ rest → record.message.id = msg.id → record.message = msg :=
      fun record listed => same record (mem_cons_of_mem _ listed)
    cases effect with
    | schedule first =>
      apply ih _ others
      obtain held | ⟨record, listed, equal⟩ := parked
      · exact .inl (.schedule (.inl held) (same first mem_cons_self))
      · obtain here | later := mem_cons.mp listed
        · cases here
          exact .inl (.schedule (.inr equal) (same first mem_cons_self))
        · exact .inr ⟨record, later, equal⟩
    | audit | walSync | publish | requeue =>
      apply ih _ others
      obtain held | ⟨record, listed, equal⟩ := parked
      · exact .inl held
      · obtain here | later := mem_cons.mp listed
        · cases here
        · exact .inr ⟨record, later, equal⟩

theorem Turn.Holds.schedules {env} {turn : Turn} (holds : turn.Holds env) (listed : .schedule record ∈ turn.effects) :
    turn.delayed = true ∧ record = fromMsg turn.record.message := by
  cases future : turn.delayed with
  | true =>
    rw [(holds.scheduled future).1] at listed
    cases mem_singleton.mp listed
    exact ⟨rfl, rfl⟩
  | false =>
    have only := (holds.sent future).only (send_only turn.message.topic rfl)
    exact absurd rfl (only _ listed record)

theorem Turn.dated {turn : Turn} (future : turn.delayed = true) : turn.record.message.deliverAt.isSome = true := by
  simp only [Turn.delayed, inFuture] at future
  split at future
  · next dated => rw [dated]; rfl
  · cases future

theorem Filed.unique {first second} (filed : Filed store.records) (pending : first ∈ store.replayPending)
    (also : second ∈ store.replayPending) (dated : first.message.deliverAt.isSome = true)
    (later : second.message.deliverAt.isSome = true) (same : first.message.id = second.message.id) : first = second := by
  obtain ⟨⟨key, found⟩, -⟩ := mem_replayPending.mp pending
  obtain ⟨⟨other, present⟩, -⟩ := mem_replayPending.mp also
  have keys : key = other := by rw [← filed key first found dated, ← filed other second present later, same]
  subst keys
  exact Option.some.inj (found.symm.trans present)

theorem replay_turns {env topics effects summary}
    (returned : (replay env topics store).outcome = (effects, .ok summary)) :
    ∃ turns : List Turn, turns.map Turn.record = store.replayPending.filter (replayable topics) ∧
      turns.flatMap Turn.effects = effects ∧ (∀ turn ∈ turns, turn.Holds env) ∧ Accounts turns summary := by
  have emits : Emits (replay env topics store) fun added result => ∀ after, result = .ok after →
      ∃ turns : List Turn, turns.map Turn.record = store.replayPending.filter (replayable topics) ∧
        turns.flatMap Turn.effects = added ∧ (∀ turn ∈ turns, turn.Holds env) ∧ after = turns.foldl note {} := by
    apply Emits.cond
    · intro _
      exact replayRecords_turns _ {}
    · intro _
      apply Emits.throw
      intro after failed
      cases failed
  have outcome := Emits.outcome emits
  rw [returned] at outcome
  obtain ⟨turns, records, left, holds, rfl⟩ := outcome summary rfl
  obtain ⟨delayed, recovered, errors⟩ := foldl_note turns {}
  exact ⟨turns, records, left, holds, delayed.trans (Nat.zero_add _), recovered.trans (Nat.zero_add _), errors⟩

/-- For every WAL, filter and surroundings: if the replay returns, every pending record
that passes the filter had one turn, nothing else was done, and the summary and the
delay store show it. -/
theorem replay_accounts {backend : WalBackend} {store : DelayStore} (logged : Logged backend store) (env : Env)
    (topics : Option (List String)) {effects : List Effect} {summary : ReplaySummary}
    (returned : (TopicRouter.replay env topics store).outcome = (effects, .ok summary)) :
    summary.recovered + summary.delayed + summary.errors.length = (store.replayPending.filter (replayable topics)).length ∧
      ∃ turns : List Turn, turns.map Turn.record = store.replayPending.filter (replayable topics) ∧
        turns.flatMap Turn.effects = effects ∧ (∀ turn ∈ turns, turn.Holds env) ∧ Accounts turns summary ∧
        ∀ turn ∈ turns, turn.delayed = true → Parked (park store effects) turn.record.message := by
  obtain ⟨turns, records, left, holds, accounts⟩ := replay_turns returned
  have pending : ∀ turn ∈ turns, turn.record ∈ store.replayPending := by
    intro turn member
    have listed : turn.record ∈ turns.map Turn.record := mem_map_of_mem member
    rw [records] at listed
    exact (mem_filter.mp listed).1
  refine ⟨?_, turns, records, left, holds, accounts, ?_⟩
  · rw [accounts.recovered, accounts.delayed, accounts.errors, total_turns holds, ← records, length_map]
  · intro turn member future
    rw [← left]
    apply parked_park
    · right
      refine ⟨fromMsg turn.record.message, mem_flatMap.mpr ⟨turn, member, ?_⟩, rfl⟩
      rw [((holds turn member).scheduled future).1]
      exact mem_singleton_self _
    · intro record listed same
      obtain ⟨other, among, scheduled⟩ := mem_flatMap.mp listed
      obtain ⟨later, rfl⟩ := (holds other among).schedules scheduled
      have one := logged.filed.unique (pending other among) (pending turn member) (Turn.dated later) (Turn.dated future) same
      show other.record.message = turn.record.message
      rw [one]

private def order (id topic : String) (deliverAt : Option SystemTime) : EMessage :=
  { EMessage.new id 0 topic [] .standard none with deliverAt }

private def logged : DelayStore :=
  (((inProcess .empty).append (fromMsg (order "a" "orders" (some 9)))).append
    (fromMsg (order "b" "orders" (some 3)))).append (fromMsg (order "c" "drafts" none))

private def atFive : Env := { nodeType := .host, registry := ∅, routes := some [], clock := fun _ => 5 }

/-- At time five the first order is put off, the second is refused, and the draft is left alone. -/
theorem refused_order_accounted : ∃ effects summary,
    (TopicRouter.replay atFive (some ["orders"]) logged).outcome = (effects, .ok summary) ∧
      summary.recovered + summary.delayed + summary.errors.length = 2 ∧
      effects = [.schedule (WalRecord.fromMsg (order "a" "orders" (some 9)))] ∧ summary.errors.map Prod.fst = ["b"] := by
  have reached : Logged .persistent logged := ((Logged.inProcess.append _).append _).append _
  have outcome : (replay atFive (some ["orders"]) logged).outcome =
      ([.schedule (fromMsg (order "a" "orders" (some 9)))],
        .ok ⟨0, 1, [("b", .queue (.send "topic 'orders' is not registered"))]⟩) := by rfl
  have accounted := replay_accounts reached atFive (some ["orders"]) outcome
  exact ⟨_, _, outcome, accounted.1, rfl, rfl⟩

end EventBase.Proofs.ReplayAccounting
