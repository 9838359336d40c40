import EventBase.Proofs.DelayScores
import EventBase.Proofs.DelaySteps

/-! The Redis delay store against the clock. The index compares scores, so a record
comes out in time when its score stays above those of all earlier milliseconds, and
when nobody stores it under an id that a running `fetch_ready` has already listed. -/

namespace EventBase.Proofs.DelayTiming
open Foundations DelayScores DelaySteps List

def wholeMillis (time : Int) : Int := time / 1000000

theorem wholeMillis_mono {first second} (ordered : first ≤ second) : wholeMillis first ≤ wholeMillis second :=
  Int.ediv_le_ediv (by decide) ordered

/-- From `since` on, the score of the deadline is above the clock's as long as the
deadline is ahead. -/
def Separated (since deadline : SystemTime) : Prop :=
  ∀ now, since ≤ now → wholeMillis now < wholeMillis deadline → score (nowMillis now) < score (asI64 (millis deadline))

theorem Separated.later {since later deadline} (separated : Separated since deadline) (passed : since ≤ later) :
    Separated later deadline := fun now after => separated now (Int.le_trans passed after)

theorem separated_of_le {since deadline : Int} (epoch : 0 ≤ since) (exact : deadline ≤ 2 ^ 53 * 1000000) :
    Separated since deadline := by
  intro now after ahead
  have started : 0 ≤ now := Int.le_trans epoch after
  have ordered : now < deadline := by
    by_contra passed
    exact Int.not_lt.mpr (wholeMillis_mono (Int.not_lt.mp passed)) ahead
  have nonneg : 0 ≤ deadline := Int.le_trans started (Int.le_of_lt ordered)
  have bounded : now ≤ 2 ^ 53 * 1000000 := Int.le_trans (Int.le_of_lt ordered) exact
  rw [nowMillis, score_millis (millis_le_of_bounded started bounded), score_millis (millis_le_of_bounded nonneg exact),
    millis_of_nonneg started, millis_of_nonneg nonneg]
  exact ahead

def Patient (since : SystemTime) (record : WalRecord) : Prop :=
  ∀ deadline, record.message.deliverAt = some deadline → Separated since deadline

def Ripe (now : SystemTime) (record : WalRecord) : Prop :=
  ∀ deadline, record.message.deliverAt = some deadline → wholeMillis deadline ≤ wholeMillis now

theorem Patient.later {since later record} (patient : Patient since record) (passed : since ≤ later) :
    Patient later record := fun deadline stamped => (patient deadline stamped).later passed

theorem Ripe.later {now later record} (ripe : Ripe now record) (passed : now ≤ later) :
    Ripe later record := fun deadline stamped => Int.le_trans (ripe deadline stamped) (wholeMillis_mono passed)

theorem Patient.ripe {now record} (patient : Patient now record)
    (due : score (deliverAtMillis record) ≤ score (nowMillis now)) : Ripe now record := by
  intro deadline stamped
  rw [deliverAtMillis, stamped] at due
  by_contra ahead
  exact Int.not_lt.mpr due (patient deadline stamped now (Int.le_refl now) (Int.not_le.mp ahead))

/-- Storing the record does not slip it into the `fetch_ready` of this client ahead of time. -/
def Undisturbed (clock : SystemTime) (record : WalRecord) : DelayClient → Prop
  | .listing _ now => Patient now record
  | .claiming fetch | .deleting fetch _ _ => record.message.id ∈ fetch.due → Ripe clock record
  | .reading fetch messageId => record.message.id = messageId ∨ record.message.id ∈ fetch.due → Ripe clock record
  | _ => True

def Timely (clock : SystemTime) (state : DelayClients) : DelayEvent → Prop
  | .start _ (.schedule record) => Patient clock record
  | .start _ (.fetchReady now) => now = clock
  | .command index =>
    ∀ record, state.clients[index]? = some (.storing record) → ∀ client ∈ state.clients, Undisturbed clock record client
  | _ => True

def RipeUnder (clock : SystemTime) (store : RedisWal) (messageId : String) : Prop :=
  ∀ record, store.delays.lookup messageId = some record → Ripe clock record

structure FetchInTime (clock : SystemTime) (store : RedisWal) (fetch : Fetch) : Prop where
  due : ∀ messageId ∈ fetch.due, RipeUnder clock store messageId
  ready : ∀ record ∈ fetch.ready, Ripe clock record

def ClientInTime (clock : SystemTime) (store : RedisWal) : DelayClient → Prop
  | .minting record | .storing record => Patient clock record
  | .listing _ now => now ≤ clock ∧ ∀ messageId record, store.delays.lookup messageId = some record → Patient now record
  | .claiming fetch => FetchInTime clock store fetch
  | .reading fetch messageId => FetchInTime clock store fetch ∧ RipeUnder clock store messageId
  | .deleting fetch _ payload => FetchInTime clock store fetch ∧ ∀ record ∈ payload, Ripe clock record
  | _ => True

structure InTime (clock : SystemTime) (state : DelayClients) : Prop where
  scores : ∀ messageId indexed record, state.store.delayIndex.lookup messageId = some indexed →
    state.store.delays.lookup messageId = some record → indexed = score (deliverAtMillis record)
  stored : ∀ messageId record, state.store.delays.lookup messageId = some record → Patient clock record
  clients : ∀ client ∈ state.clients, ClientInTime clock state.store client

theorem InTime.init (clock : SystemTime) (clients : Nat) : InTime clock (DelayClients.init clients) where
  scores _ _ _ found := by cases found
  stored _ _ found := by cases found
  clients client member := by
    obtain ⟨_, rfl⟩ := mem_replicate.mp member
    trivial

section
variable {clock later : SystemTime} {store after : RedisWal}

theorem FetchInTime.frame {fetch} (inTime : FetchInTime clock store fetch) (passed : clock ≤ later)
    (kept : ∀ messageId record, after.delays.lookup messageId = some record →
      store.delays.lookup messageId = some record ∨ (messageId ∈ fetch.due → Ripe later record)) :
    FetchInTime later after fetch := by
  refine ⟨fun messageId member record found => ?_, fun record member => (inTime.ready record member).later passed⟩
  obtain same | ripe := kept messageId record found
  · exact (inTime.due messageId member record same).later passed
  · exact ripe member

theorem ClientInTime.frame {client} (inTime : ClientInTime clock store client) (passed : clock ≤ later)
    (kept : ∀ messageId record, after.delays.lookup messageId = some record →
      store.delays.lookup messageId = some record ∨ (messageId = record.message.id ∧ Undisturbed later record client)) :
    ClientInTime later after client := by
  cases client with
  | minting record => exact Patient.later inTime passed
  | storing record => exact Patient.later inTime passed
  | listing call now =>
    refine ⟨Int.le_trans inTime.1 passed, fun messageId record found => ?_⟩
    obtain same | ⟨_, undisturbed⟩ := kept messageId record found
    · exact inTime.2 messageId record same
    · exact undisturbed
  | claiming fetch =>
    refine FetchInTime.frame inTime passed fun messageId record found => ?_
    obtain same | ⟨rfl, undisturbed⟩ := kept messageId record found
    · exact .inl same
    · exact .inr undisturbed
  | reading fetch claimed =>
    refine ⟨inTime.1.frame passed fun messageId record found => ?_, fun record found => ?_⟩
    · obtain same | ⟨rfl, undisturbed⟩ := kept messageId record found
      · exact .inl same
      · exact .inr fun member => undisturbed (.inr member)
    · obtain same | ⟨rfl, undisturbed⟩ := kept claimed record found
      · exact (inTime.2 record same).later passed
      · exact undisturbed (.inl rfl)
  | deleting fetch claimed payload =>
    refine ⟨inTime.1.frame passed fun messageId record found => ?_, fun record member => (inTime.2 record member).later passed⟩
    obtain same | ⟨rfl, undisturbed⟩ := kept messageId record found
    · exact .inl same
    · exact .inr undisturbed
  | _ => trivial

theorem InTime.tick {state} (inTime : InTime clock state) (passed : clock ≤ later) : InTime later state where
  scores := inTime.scores
  stored messageId record found := (inTime.stored messageId record found).later passed
  clients client member := (inTime.clients client member).frame passed fun _ _ => .inl

end

section
variable {clock : SystemTime} {state : DelayClients} {index : Nat} {event : DelayEvent} {before after : DelayClient}
  {store : RedisWal} {entries : List DelayEntry}

theorem InTime.dueIds (inTime : InTime clock state) {now}
    (patient : ∀ messageId record, state.store.delays.lookup messageId = some record → Patient now record)
    (passed : now ≤ clock) : ∀ messageId ∈ state.store.dueIds now, RipeUnder clock state.store messageId := by
  intro messageId member record found
  obtain ⟨indexed, listed, due⟩ := mem_keysWhere.mp member
  have same := inTime.scores messageId indexed record listed found
  exact ((patient messageId record found).ripe (same ▸ of_decide_eq_true due)).later passed

theorem InTime.client (inTime : InTime clock state) (held : ClientInTime clock state.store before)
    (moved : Move index state.history.length state.store event before after store entries) (timely : Timely clock state event) :
    ClientInTime clock store after := by
  cases moved with
  | schedule => exact timely
  | fetch =>
    cases timely
    exact ⟨Int.le_refl _, inTime.stored⟩
  | mint => exact held
  | list => exact ⟨inTime.dueIds held.2 held.1, fun _ member => nomatch member⟩
  | @won _ messageId rest due indexed =>
    have listed : ∀ id ∈ messageId :: rest, RipeUnder clock state.store id := due ▸ held.due
    exact ⟨⟨fun id member => listed id (mem_cons_of_mem _ member), held.ready⟩, listed messageId mem_cons_self⟩
  | @lost _ messageId rest due taken =>
    have listed : ∀ id ∈ messageId :: rest, RipeUnder clock state.store id := due ▸ held.due
    exact ⟨fun id member => listed id (mem_cons_of_mem _ member), held.ready⟩
  | read => exact ⟨held.1, held.2⟩
  | delete =>
    refine ⟨fun id member record found => held.1.due id member record (lookup_erase_cases found).2, fun record member => ?_⟩
    obtain member | member := mem_append.mp member
    · exact held.1.ready record member
    · exact held.2 record (Option.mem_toList.mp member)
  | _ => trivial

theorem InTime.scores_move (inTime : InTime clock state)
    (moved : Move index state.history.length state.store event before after store entries) {messageId indexed record}
    (listed : store.delayIndex.lookup messageId = some indexed) (found : store.delays.lookup messageId = some record) :
    indexed = score (deliverAtMillis record) := by
  cases moved with
  | save =>
    obtain ⟨rfl, rfl⟩ | ⟨other, kept⟩ := lookup_insert_cases found
    · rw [AList.lookup_insert] at listed
      cases listed
      rfl
    · rw [AList.lookup_insert_ne other] at listed
      exact inTime.scores messageId indexed record listed kept
  | delete => exact inTime.scores messageId indexed record listed (lookup_erase_cases found).2
  | erase => exact inTime.scores messageId indexed record listed (lookup_erase_cases found).2
  | won => exact inTime.scores messageId indexed record (lookup_erase_cases listed).2 found
  | unindex => exact inTime.scores messageId indexed record (lookup_erase_cases listed).2 found
  | _ => exact inTime.scores messageId indexed record listed found

end

theorem InTime.step {clock state next event} (inTime : InTime clock state) (timely : Timely clock state event)
    (stepped : state.step event = some next) : InTime clock next := by
  obtain ⟨index, before, after, store, entries, held, moved, rfl⟩ := step_moves stepped
  have working := inTime.clients before (mem_of_getElem? held)
  refine ⟨fun _ _ _ => inTime.scores_move moved, fun messageId record found => ?_, fun client member => ?_⟩
  · obtain kept | ⟨rfl, _⟩ := moved.payload found
    · exact inTime.stored messageId record kept
    · exact working
  · obtain member | rfl := mem_or_eq_of_mem_set member
    · refine (inTime.clients client member).frame (Int.le_refl clock) fun messageId record found => ?_
      obtain kept | ⟨rfl, rfl, rfl, _⟩ := moved.payload found
      · exact .inl kept
      · exact .inr ⟨rfl, timely _ held client member⟩
    · exact inTime.client working moved timely

end EventBase.Proofs.DelayTiming
