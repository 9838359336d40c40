import EventBase.Foundations.Counting
import EventBase.Proofs.DelayScores
import EventBase.Proofs.DelaySteps

/-! Clients that drain one delay store: a record that is scheduled once is returned at most
once. -/

namespace EventBase.Proofs.DelayConsumers
open Foundations DelayScores DelaySteps List Option AList DelayClients

def Due (history : List DelayEntry) (now : SystemTime) (messageId : String) : Prop :=
  ∃ record, .stored record ∈ history ∧ record.message.id = messageId ∧ score (deliverAtMillis record) ≤ score (nowMillis now)

def Accounted (history : List DelayEntry) (now : SystemTime) (record : WalRecord) : Prop :=
  .stored record ∈ history ∧ Due history now record.message.id

structure TracedFetch (history : List DelayEntry) (fetch : Fetch) : Prop where
  due : ∀ messageId ∈ fetch.due, Due history fetch.now messageId
  ready : ∀ record ∈ fetch.ready, Accounted history fetch.now record

def TracedClient (history : List DelayEntry) : DelayClient → Prop
  | .claiming fetch => TracedFetch history fetch
  | .reading fetch messageId => TracedFetch history fetch ∧ Due history fetch.now messageId
  | .deleting fetch messageId payload =>
    TracedFetch history fetch ∧ Due history fetch.now messageId ∧
      ∀ record ∈ payload, record.message.id = messageId ∧ .stored record ∈ history
  | _ => True

structure Traced (state : DelayClients) : Prop where
  payloads : ∀ messageId record, state.store.delays.lookup messageId = some record →
    record.message.id = messageId ∧ .stored record ∈ state.history
  scores : ∀ messageId indexed, state.store.delayIndex.lookup messageId = some indexed →
    ∃ record, .stored record ∈ state.history ∧ record.message.id = messageId ∧ score (deliverAtMillis record) = indexed
  clients : ∀ client ∈ state.clients, TracedClient state.history client
  returned : ∀ call now records, .returned call now records ∈ state.history →
    ∀ record ∈ records, Accounted state.history now record

section
variable {history entries : List DelayEntry} {now : SystemTime}

theorem Due.later {messageId} (due : Due history now messageId) : Due (history ++ entries) now messageId := by
  obtain ⟨record, stored, keyed, passed⟩ := due
  exact ⟨record, mem_append_left _ stored, keyed, passed⟩

theorem Accounted.later {record} (accounted : Accounted history now record) :
    Accounted (history ++ entries) now record := ⟨mem_append_left _ accounted.1, accounted.2.later⟩

theorem TracedFetch.later {fetch} (traced : TracedFetch history fetch) : TracedFetch (history ++ entries) fetch :=
  ⟨fun messageId member => (traced.due messageId member).later, fun record member => (traced.ready record member).later⟩

theorem TracedClient.later {client} (traced : TracedClient history client) :
    TracedClient (history ++ entries) client := by
  cases client with
  | claiming fetch => exact TracedFetch.later traced
  | reading fetch messageId => exact ⟨traced.1.later, traced.2.later⟩
  | deleting fetch messageId payload =>
    refine ⟨traced.1.later, traced.2.1.later, fun record member => ?_⟩
    obtain ⟨keyed, stored⟩ := traced.2.2 record member
    exact ⟨keyed, mem_append_left _ stored⟩
  | _ => trivial

end

theorem Traced.init (clients : Nat) : Traced (init clients) where
  payloads _ _ found := by cases found
  scores _ _ found := by cases found
  clients client member := by
    obtain ⟨_, rfl⟩ := mem_replicate.mp member
    trivial
  returned _ _ _ member := by cases member

theorem Traced.dueIds {state} (traced : Traced state) (now : SystemTime) :
    ∀ messageId ∈ state.store.dueIds now, Due state.history now messageId := by
  intro messageId member
  obtain ⟨indexed, found, passed⟩ := mem_keysWhere.mp member
  obtain ⟨record, stored, keyed, rfl⟩ := traced.scores messageId indexed found
  exact ⟨record, stored, keyed, of_decide_eq_true passed⟩

section
variable {state : DelayClients} {index : Nat} {event : DelayEvent} {before after : DelayClient} {store : RedisWal}
  {entries : List DelayEntry} (moved : Move index state.history.length state.store event before after store entries)
include moved

theorem scores_move {messageId indexed} (found : store.delayIndex.lookup messageId = some indexed) :
    (∃ record, .stored record ∈ entries ∧ record.message.id = messageId ∧ score (deliverAtMillis record) = indexed) ∨
      state.store.delayIndex.lookup messageId = some indexed := by
  cases moved with
  | @save saved =>
    obtain ⟨rfl, rfl⟩ | ⟨_, kept⟩ := lookup_insert_cases found
    · exact .inl ⟨saved, mem_append_right _ (mem_singleton_self _), rfl, rfl⟩
    · exact .inr kept
  | won => exact .inr (lookup_erase_cases found).2
  | unindex => exact .inr (lookup_erase_cases found).2
  | _ => exact .inr found

theorem traced_client (traced : Traced state) (held : TracedClient state.history before) :
    TracedClient (state.history ++ entries) after := by
  refine TracedClient.later ?_
  cases moved with
  | @list _ now => exact ⟨traced.dueIds now, fun _ member => nomatch member⟩
  | @won fetch messageId rest due indexed =>
    have listed : ∀ id ∈ messageId :: rest, Due state.history fetch.now id := due ▸ held.due
    exact ⟨⟨fun id member => listed id (mem_cons_of_mem _ member), held.ready⟩, listed messageId mem_cons_self⟩
  | @lost fetch messageId rest due taken =>
    have listed : ∀ id ∈ messageId :: rest, Due state.history fetch.now id := due ▸ held.due
    exact ⟨fun id member => listed id (mem_cons_of_mem _ member), held.ready⟩
  | @read _ messageId => exact ⟨held.1, held.2, fun record found => traced.payloads messageId record found⟩
  | @delete _ _ payload =>
    obtain ⟨fetched, due, payload⟩ := held
    refine ⟨fetched.due, fun record member => ?_⟩
    obtain member | member := mem_append.mp member
    · exact fetched.ready record member
    · obtain ⟨keyed, stored⟩ := payload record (mem_toList.mp member)
      exact ⟨stored, keyed ▸ due⟩
  | _ => trivial

theorem returned_move {call now records} (member : .returned call now records ∈ entries) :
    before = .claiming ⟨call, now, [], records⟩ := by
  cases moved with
  | returned =>
    cases mem_singleton.mp member
    rfl
  | save => simp at member
  | erase => simp at member
  | _ => simp at member

end

theorem Traced.step {state next event} (traced : Traced state) (stepped : state.step event = some next) : Traced next := by
  obtain ⟨index, before, after, store, entries, present, moved, rfl⟩ := step_moves stepped
  have held : TracedClient state.history before := traced.clients before (mem_of_getElem? present)
  refine ⟨?_, ?_, ?_, ?_⟩
  · intro messageId record found
    obtain kept | ⟨_, _, keyed, stored, _⟩ := moved.payload found
    · obtain ⟨keyed, stored⟩ := traced.payloads messageId record kept
      exact ⟨keyed, mem_append_left _ stored⟩
    · exact ⟨keyed, mem_append_right _ stored⟩
  · intro messageId indexed found
    obtain ⟨record, stored, keyed⟩ | kept := scores_move moved found
    · exact ⟨record, mem_append_right _ stored, keyed⟩
    · obtain ⟨record, stored, keyed⟩ := traced.scores messageId indexed kept
      exact ⟨record, mem_append_left _ stored, keyed⟩
  · intro client member
    obtain member | rfl := mem_or_eq_of_mem_set member
    · exact (traced.clients client member).later
    · exact traced_client moved traced held
  · intro call now records member record fetched
    obtain member | member := mem_append.mp member
    · exact (traced.returned call now records member record fetched).later
    · obtain rfl := returned_move moved member
      exact (held.ready record fetched).later

section
variable (messageId : String)

def isStored : DelayEntry → Bool
  | .stored record => record.message.id = messageId
  | _ => false

def storedCount (history : List DelayEntry) : Nat := history.countP (isStored messageId)

def bearing (records : List WalRecord) : Nat := records.countP fun record => record.message.id = messageId

def inReply : DelayEntry → Nat
  | .returned _ _ records => bearing messageId records
  | _ => 0

def returnedCount (history : List DelayEntry) : Nat := (history.map (inReply messageId)).sum

def held : DelayClient → Nat
  | .claiming fetch => bearing messageId fetch.ready
  | .reading fetch claimed => bearing messageId fetch.ready + if claimed = messageId then 1 else 0
  | .deleting fetch claimed _ => bearing messageId fetch.ready + if claimed = messageId then 1 else 0
  | _ => 0

def indexed (store : RedisWal) : Nat := if messageId ∈ store.delayIndex then 1 else 0

/-- Each time the id was scheduled there is at most one claim on it, won or still to win. -/
def Counted (state : DelayClients) : Prop :=
  (state.clients.map (held messageId)).sum + returnedCount messageId state.history + indexed messageId state.store ≤
    storedCount messageId state.history

end

theorem bearing_payload (messageId : String) {claimed} {payload : Option WalRecord}
    (keyed : ∀ record ∈ payload, record.message.id = claimed) :
    bearing messageId payload.toList ≤ if claimed = messageId then 1 else 0 := by
  cases payload with
  | none => exact Nat.zero_le _
  | some record => simp [bearing, countP_singleton, keyed record rfl]

theorem held_move {state : DelayClients} {index event before after store entries} (messageId : String)
    (traced : TracedClient state.history before)
    (moved : Move index state.history.length state.store event before after store entries) :
    held messageId after + returnedCount messageId entries + indexed messageId store ≤
      held messageId before + indexed messageId state.store + storedCount messageId entries := by
  cases moved with
  | @save record =>
    have placed : indexed messageId { state.store with
        delays := state.store.delays.insert record.message.id record
        delayIndex := state.store.delayIndex.insert record.message.id (score (deliverAtMillis record)) } ≤
        indexed messageId state.store + if record.message.id = messageId then 1 else 0 := by
      simp only [indexed, mem_insert]
      grind
    cases state.store.delays.lookup record.message.id <;>
      simpa [held, returnedCount, inReply, storedCount, isStored, countP_cons] using placed
  | won due present =>
    simp only [held, returnedCount, indexed, storedCount, mem_erase, map_nil, sum_nil, countP_nil]
    grind
  | delete =>
    have counted := bearing_payload messageId fun record found => (traced.2.2 record found).1
    simp only [held, returnedCount, indexed, storedCount, bearing, countP_append, map_nil, sum_nil,
      countP_nil] at counted ⊢
    omega
  | unindex =>
    simp only [held, returnedCount, indexed, storedCount, mem_erase, map_nil, sum_nil, countP_nil]
    grind
  | returned => simp [held, returnedCount, inReply, indexed, storedCount, isStored]
  | @erase _ claimed =>
    cases state.store.delays.lookup claimed <;> simp [held, returnedCount, inReply, indexed, storedCount, isStored]
  | _ => simp [held, returnedCount, inReply, indexed, storedCount, isStored, bearing]

theorem Counted.step {messageId} {state next : DelayClients} {event} (traced : Traced state)
    (counted : Counted messageId state) (stepped : state.step event = some next) : Counted messageId next := by
  obtain ⟨index, before, after, store, entries, present, moved, rfl⟩ := step_moves stepped
  have won := held_move messageId (traced.clients before (mem_of_getElem? present)) moved
  have sum : ((state.clients.set index after).map (held messageId)).sum + held messageId before = _ :=
    sum_map_set after present
  simp only [Counted, update, returnedCount, storedCount, map_append, sum_append,
    countP_append] at counted won ⊢
  omega

section
variable (messageId : String)

def Scheduled (history : List DelayEntry) : Prop := ∃ record, record.message.id = messageId ∧ .stored record ∈ history

def RemovesStored (remove : Nat) : List DelayEntry → Prop := After (Scheduled messageId) (.removeBegan remove messageId)

def Cancelled (history : List DelayEntry) : Prop :=
  ∃ remove, After (RemovesStored messageId remove) (.removeDone remove messageId) history

/-- It had completed when the `fetch_ready` call began. -/
def CancelledBefore (fetch : Nat) : List DelayEntry → Prop := After (Cancelled messageId) (.fetchBegan fetch)

end

section
variable {messageId : String} {history entries : List DelayEntry} {call : Nat}

theorem Scheduled.append (scheduled : Scheduled messageId history) : Scheduled messageId (history ++ entries) := by
  obtain ⟨record, keyed, stored⟩ := scheduled
  exact ⟨record, keyed, mem_append_left _ stored⟩

theorem Cancelled.append (cancelled : Cancelled messageId history) : Cancelled messageId (history ++ entries) := by
  obtain ⟨remove, done⟩ := cancelled
  exact ⟨remove, After.append entries done⟩

theorem RemovesStored.scheduled (removes : RemovesStored messageId call history) : Scheduled messageId history :=
  After.lasting (fun _ _ => Scheduled.append) removes

theorem Cancelled.scheduled (cancelled : Cancelled messageId history) : Scheduled messageId history := by
  obtain ⟨remove, done⟩ := cancelled
  have removes : RemovesStored messageId remove history := After.lasting (fun _ entries => After.append entries) done
  exact removes.scheduled

theorem CancelledBefore.cancelled (before : CancelledBefore messageId call history) : Cancelled messageId history :=
  After.lasting (fun _ _ => Cancelled.append) before

theorem not_stored_again (once : storedCount messageId (history ++ entries) ≤ 1) (scheduled : Scheduled messageId history) :
    ∀ other, .stored other ∈ entries → other.message.id ≠ messageId := by
  intro other again same
  obtain ⟨record, keyed, stored⟩ := scheduled
  rw [storedCount, countP_append] at once
  have first : 0 < history.countP (isStored messageId) := countP_pos_iff.mpr ⟨_, stored, by simp [isStored, keyed]⟩
  have second : 0 < entries.countP (isStored messageId) := countP_pos_iff.mpr ⟨_, again, by simp [isStored, same]⟩
  omega

end

def Without (messageId : String) : DelayClient → Prop
  | .claiming fetch | .reading fetch _ => ∀ record ∈ fetch.ready, record.message.id ≠ messageId
  | .deleting fetch _ payload =>
    (∀ record ∈ fetch.ready, record.message.id ≠ messageId) ∧ ∀ record ∈ payload, record.message.id ≠ messageId
  | _ => True

def fetchCall : DelayClient → Option Nat
  | .listing call _ => some call
  | .claiming fetch | .reading fetch _ | .deleting fetch _ _ => some fetch.call
  | _ => none

def removeCall : DelayClient → Option Nat
  | .removing call _ | .erasing call _ | .removed call _ => some call
  | _ => none

/-- Once a removal of the stored record is done its payload is gone, and no later
`fetch_ready` gets hold of it. -/
structure Withdrawn (messageId : String) (state : DelayClients) : Prop where
  fetches : ∀ client ∈ state.clients, ∀ call, fetchCall client = some call → call < state.history.length
  removals : ∀ client ∈ state.clients, ∀ call, removeCall client = some call → call < state.history.length
  replies : ∀ call now records, .returned call now records ∈ state.history → call < state.history.length
  erased : ∀ call, .removed call messageId ∈ state.clients → RemovesStored messageId call state.history →
    messageId ∉ state.store.delays
  gone : Cancelled messageId state.history → messageId ∉ state.store.delays
  later : ∀ client ∈ state.clients, ∀ call, fetchCall client = some call → CancelledBefore messageId call state.history →
    Without messageId client
  returned : ∀ call now records, .returned call now records ∈ state.history →
    CancelledBefore messageId call state.history → ∀ record ∈ records, record.message.id ≠ messageId

theorem Withdrawn.init (messageId : String) (clients : Nat) : Withdrawn messageId (init clients) where
  fetches client member call known := by
    obtain ⟨_, rfl⟩ := mem_replicate.mp member
    cases known
  removals client member call known := by
    obtain ⟨_, rfl⟩ := mem_replicate.mp member
    cases known
  replies _ _ _ member := by cases member
  erased call member := by
    obtain ⟨_, same⟩ := mem_replicate.mp member
    cases same
  gone _ := notMem_empty _
  later client member call known := by
    obtain ⟨_, rfl⟩ := mem_replicate.mp member
    cases known
  returned _ _ _ member := by cases member

section
variable {messageId : String} {state : DelayClients} {index call : Nat} {event : DelayEvent} {before after : DelayClient}
  {store : RedisWal} {entries : List DelayEntry}
  (moved : Move index state.history.length state.store event before after store entries)
include moved

theorem fetchCall_move (known : fetchCall after = some call) :
    fetchCall before = some call ∨ (call = state.history.length ∧ entries.length = 1 ∧ ∃ now, after = .listing call now) := by
  cases moved with
  | @fetch now => cases known; exact .inr ⟨rfl, rfl, now, rfl⟩
  | list | won | lost | read | delete => exact .inl known
  | _ => cases known

theorem removeCall_move (known : removeCall after = some call) :
    removeCall before = some call ∨ (call = state.history.length ∧ entries.length = 1) := by
  cases moved with
  | remove => cases known; exact .inr ⟨rfl, rfl⟩
  | unindex | erase => exact .inl known
  | _ => cases known

theorem fetchBegan_move (member : .fetchBegan call ∈ entries) : call = state.history.length := by
  cases moved with
  | fetch => simpa using member
  | _ => simp at member

theorem removeBegan_move (member : .removeBegan call messageId ∈ entries) : call = state.history.length := by
  cases moved with
  | remove =>
    simp only [mem_singleton, DelayEntry.removeBegan.injEq] at member
    exact member.1
  | _ => simp at member

theorem removeDone_move (member : .removeDone call messageId ∈ entries) :
    before = .removed call messageId ∧ entries = [.removeDone call messageId] ∧ store = state.store := by
  cases moved with
  | removed =>
    cases mem_singleton.mp member
    exact ⟨rfl, rfl, rfl⟩
  | _ => simp at member

theorem absent_move (absent : messageId ∉ state.store.delays)
    (unstored : ∀ record, .stored record ∈ entries → record.message.id ≠ messageId) : messageId ∉ store.delays := by
  intro present
  obtain ⟨record, found⟩ := isSome_iff_exists.mp (lookup_isSome.mpr present)
  obtain kept | ⟨_, _, keyed, stored, _⟩ := moved.payload found
  · exact absent (lookup_isSome.mp (by rw [kept]; rfl))
  · exact unstored record stored keyed

theorem removed_move (finished : after = .removed call messageId) : messageId ∉ store.delays := by
  cases moved with
  | erase =>
    cases finished
    simp [mem_erase]
  | _ => cases finished

theorem without_move (traced : TracedClient (state.history ++ entries) after) (absent : messageId ∉ state.store.delays)
    (without : Without messageId before) : Without messageId after := by
  cases moved with
  | list => exact fun _ member => nomatch member
  | won | lost => exact without
  | read =>
    refine ⟨without, fun record found same => absent ?_⟩
    obtain ⟨keyed, _⟩ := traced.2.2 record found
    obtain rfl := keyed.symm.trans same
    exact lookup_isSome.mp (isSome_of_mem found)
  | delete =>
    intro record member
    obtain member | member := mem_append.mp member
    · exact without.1 record member
    · exact without.2 record (mem_toList.mp member)
  | _ => trivial

end

theorem Withdrawn.step {messageId state next event} (traced : Traced state) (withdrawn : Withdrawn messageId state)
    (stepped : state.step event = some next) (once : storedCount messageId next.history ≤ 1) : Withdrawn messageId next := by
  obtain ⟨index, before, after, store, entries, present, moved, rfl⟩ := step_moves stepped
  have member : before ∈ state.clients := mem_of_getElem? present
  have longer : ∀ {call}, call < state.history.length → call < (state.history ++ entries).length := by
    intro call below
    rw [length_append]
    omega
  have notFetched : ∀ {call}, call < state.history.length → .fetchBegan call ∉ entries := fun below began =>
    absurd (fetchBegan_move moved began) (Nat.ne_of_lt below)
  have absent : Scheduled messageId state.history → messageId ∉ state.store.delays → messageId ∉ store.delays :=
    fun scheduled gone => absent_move moved gone (not_stored_again once scheduled)
  refine ⟨?_, ?_, ?_, ?_, ?_, ?_, ?_⟩
  · intro client held call known
    obtain held | rfl := mem_or_eq_of_mem_set held
    · exact longer (withdrawn.fetches client held call known)
    · obtain known | ⟨rfl, single, _⟩ := fetchCall_move moved known
      · exact longer (withdrawn.fetches before member call known)
      · simp [update, single]
  · intro client held call known
    obtain held | rfl := mem_or_eq_of_mem_set held
    · exact longer (withdrawn.removals client held call known)
    · obtain known | ⟨rfl, single⟩ := removeCall_move moved known
      · exact longer (withdrawn.removals before member call known)
      · simp [update, single]
  · intro call now records replied
    obtain replied | replied := mem_append.mp replied
    · exact longer (withdrawn.replies call now records replied)
    · obtain rfl := returned_move moved replied
      exact longer (withdrawn.fetches _ member call rfl)
  · intro call held removes
    obtain held | finished := mem_or_eq_of_mem_set held
    · have below := withdrawn.removals _ held call rfl
      have removes : RemovesStored messageId call state.history :=
        After.of_append removes fun began => absurd (removeBegan_move moved began) (Nat.ne_of_lt below)
      exact absent removes.scheduled (withdrawn.erased call held removes)
    · exact removed_move moved finished.symm
  · rintro ⟨remove, done⟩
    by_cases now : .removeDone remove messageId ∈ entries
    · obtain ⟨rfl, rfl, rfl⟩ := removeDone_move moved now
      obtain done | ⟨_, removes⟩ := After.concat done
      · exact withdrawn.gone ⟨remove, done⟩
      · exact withdrawn.erased remove member removes
    · have cancelled : Cancelled messageId state.history := ⟨remove, After.of_append done now⟩
      exact absent cancelled.scheduled (withdrawn.gone cancelled)
  · intro client held call known before
    obtain held | rfl := mem_or_eq_of_mem_set held
    · exact withdrawn.later client held call known (After.of_append before (notFetched (withdrawn.fetches client held call known)))
    · obtain known | ⟨_, _, now, rfl⟩ := fetchCall_move moved known
      · have before : CancelledBefore messageId call state.history :=
          After.of_append before (notFetched (withdrawn.fetches _ member call known))
        exact without_move moved (traced_client moved traced (traced.clients _ member)) (withdrawn.gone before.cancelled)
          (withdrawn.later _ member call known before)
      · trivial
  · intro call now records replied before
    obtain replied | replied := mem_append.mp replied
    · exact withdrawn.returned call now records replied
        (After.of_append before (notFetched (withdrawn.replies call now records replied)))
    · obtain rfl := returned_move moved replied
      exact withdrawn.later _ member call rfl (After.of_append before (notFetched (withdrawn.fetches _ member call rfl)))

structure Exact (messageId : String) (state : DelayClients) : Prop where
  traced : Traced state
  counted : Counted messageId state
  withdrawn : storedCount messageId state.history ≤ 1 → Withdrawn messageId state

theorem Exact.init (messageId : String) (clients : Nat) : Exact messageId (init clients) where
  traced := .init clients
  counted := by simp [Counted, DelayClients.init, RedisWal.empty, held, returnedCount, indexed, storedCount]
  withdrawn _ := .init messageId clients

theorem Exact.step {messageId state next event} (exact : Exact messageId state)
    (stepped : state.step event = some next) : Exact messageId next where
  traced := exact.traced.step stepped
  counted := exact.counted.step exact.traced stepped
  withdrawn once := by
    refine (exact.withdrawn (Nat.le_trans ?_ once)).step exact.traced stepped once
    obtain ⟨index, before, after, store, entries, _, _, rfl⟩ := step_moves stepped
    exact (sublist_append_left _ _).countP_le

theorem Traced.due_of_once {state} (traced : Traced state) {call now records record}
    (once : storedCount record.message.id state.history ≤ 1) (replied : .returned call now records ∈ state.history)
    (member : record ∈ records) :
    score (deliverAtMillis record) ≤ score (nowMillis now) := by
  obtain ⟨stored, due, also, keyed, passed⟩ := traced.returned call now records replied record member
  have same := eq_of_countP_le_one once stored also (by simp [isStored]) (by simp [isStored, keyed])
  cases same
  exact passed

/-- In every run, a record scheduled once is returned at most once over all
calls, not before its deadline, and not by a call that began after a removal of
it had completed. -/
theorem scheduled_once_returned_once {clients : Nat} {events : List DelayEvent} {state : DelayClients}
    (ran : run DelayClients.step (DelayClients.init clients) events = some state) {messageId : String}
    (once : storedCount messageId state.history ≤ 1) :
    returnedCount messageId state.history ≤ 1 ∧
      ∀ call now records, .returned call now records ∈ state.history →
        ∀ record ∈ records, record.message.id = messageId →
          (∀ deadline, record.message.deliverAt = some deadline → 0 ≤ deadline → deadline ≤ 2 ^ 53 * 1000000 →
              millis deadline ≤ millis now) ∧
            ¬ CancelledBefore messageId call state.history := by
  have exact : Exact messageId state := run_preserves (Exact messageId) Exact.step (Exact.init messageId clients) ran
  refine ⟨?_, ?_⟩
  · have counted := exact.counted
    rw [Counted] at counted
    omega
  · rintro call now records replied record member rfl
    refine ⟨fun deadline stamped nonneg early => ?_, fun cancelled => ?_⟩
    · have due := exact.traced.due_of_once once replied member
      rw [deliverAtMillis, stamped] at due
      exact millis_le_of_score (millis_le_of_bounded nonneg early) due
    · exact (exact.withdrawn once).returned call now records replied cancelled record member rfl

private def delayed : WalRecord :=
  WalRecord.fromMsg { EMessage.new "m" 0 "t" [] .standard none with deliverAt := some 5000000 }

private def race : List DelayEvent :=
  [.start 0 (.schedule delayed), .command 0, .command 0, .finish 0, .start 0 (.fetchReady 7000000),
    .start 1 (.fetchReady 8000000), .command 0, .command 1, .command 0, .command 1, .command 0, .command 0,
    .finish 0, .finish 1]

theorem race_returned_once :
    ∃ state ∈ run DelayClients.step (DelayClients.init 2) race,
      .returned 1 7000000 [{ delayed with recordId := 1 }] ∈ state.history ∧ returnedCount "m" state.history ≤ 1 ∧
        millis 5000000 ≤ millis 7000000 ∧ ¬ CancelledBefore "m" 1 state.history := by
  obtain ⟨state, ran, once, replied⟩ : ∃ state ∈ run step (init 2) race,
      storedCount "m" state.history = 1 ∧ .returned 1 7000000 [{ delayed with recordId := 1 }] ∈ state.history := by decide +kernel
  obtain ⟨single, sound⟩ := scheduled_once_returned_once ran once.le
  obtain ⟨due, uncancelled⟩ := sound 1 _ _ replied _ mem_cons_self rfl
  exact ⟨state, ran, replied, single, due 5000000 rfl (by decide) (by decide), uncancelled⟩

end EventBase.Proofs.DelayConsumers
