import EventBase.Proofs.DelaySteps

/-! The index and the payload hash of the Redis delay store. They name the same ids as long
as no schedule falls between the two deletions of one id. -/

namespace EventBase.Proofs.DelayAgreement
open Foundations DelaySteps List AList DelayClients

/-- The client has taken the id out of the index, or found it gone, and has not
yet deleted the payload. -/
def holds (messageId : String) : DelayClient → Bool
  | .reading _ claimed | .deleting _ claimed _ | .erasing _ claimed => claimed = messageId
  | _ => false

def inHand : DelayClient → List WalRecord
  | .claiming fetch | .reading fetch _ | .deleting fetch _ _ => fetch.ready
  | _ => []

def claimed : DelayClient → Bool
  | .claiming fetch => !fetch.ready.isEmpty
  | .reading _ _ | .deleting _ _ _ | .erasing _ _ => true
  | _ => false

def replied : DelayEntry → List WalRecord
  | .returned _ _ records => records
  | _ => []

/-- An id is stored only while no client is between its `ZREM` and its `HDEL` of
that id, and a client fails only while it has claimed nothing. -/
def Calm (state : DelayClients) : DelayEvent → Prop
  | .command index => ∀ record, state.clients[index]? = some (.storing record) →
    ∀ client ∈ state.clients, holds record.message.id client = false
  | .fail index => ∀ client, state.clients[index]? = some client → claimed client = false
  | _ => True

def Quiet (state : DelayClients) : Prop := ∀ client ∈ state.clients, client = .idle

def SameIds (state : DelayClients) : Prop :=
  ∀ messageId, messageId ∈ state.store.delays ↔ messageId ∈ state.store.delayIndex

/-- The record left the hash in a reply, under a removal, or under a later schedule of its id. -/
def Accounted (history : List DelayEntry) (record : WalRecord) : Prop :=
  record ∈ history.flatMap replied ∨ .erased record ∈ history ∨ .replaced record ∈ history

def NothingLost (state : DelayClients) : Prop :=
  ∀ record, .stored record ∈ state.history →
    state.store.delays.lookup record.message.id = some record ∨ Accounted state.history record

structure Agreeing (state : DelayClients) : Prop where
  payload : ∀ messageId, messageId ∈ state.store.delayIndex → messageId ∈ state.store.delays
  covered : ∀ messageId, messageId ∈ state.store.delays →
    messageId ∈ state.store.delayIndex ∨ ∃ client ∈ state.clients, holds messageId client = true
  exclusive : ∀ client ∈ state.clients, ∀ messageId, holds messageId client = true → messageId ∉ state.store.delayIndex
  current : ∀ fetch messageId payload, .deleting fetch messageId payload ∈ state.clients →
    ∀ record, state.store.delays.lookup messageId = some record → payload = some record
  kept : ∀ record, .stored record ∈ state.history → state.store.delays.lookup record.message.id = some record ∨
    Accounted state.history record ∨ ∃ client ∈ state.clients, record ∈ inHand client

theorem Agreeing.init (clients : Nat) : Agreeing (init clients) where
  payload _ member := absurd member (notMem_empty _)
  covered _ member := absurd member (notMem_empty _)
  exclusive client member messageId held := by
    obtain ⟨_, rfl⟩ := mem_replicate.mp member
    cases held
  current fetch messageId payload member := by
    obtain ⟨_, same⟩ := mem_replicate.mp member
    cases same
  kept _ stored := by cases stored

theorem Agreeing.quiet {state} (agreeing : Agreeing state) (quiet : Quiet state) :
    SameIds state ∧ NothingLost state := by
  refine ⟨fun messageId => ⟨fun member => ?_, agreeing.payload messageId⟩, fun record stored => ?_⟩
  · obtain indexed | ⟨client, member, held⟩ := agreeing.covered messageId member
    · exact indexed
    · rw [quiet client member] at held
      cases held
  · obtain present | accounted | ⟨client, member, inside⟩ := agreeing.kept record stored
    · exact .inl present
    · exact .inr accounted
    · rw [quiet client member] at inside
      cases inside

theorem Accounted.append {history entries record} (accounted : Accounted history record) :
    Accounted (history ++ entries) record := by
  obtain inside | erased | replaced := accounted
  · exact .inl (by rw [flatMap_append]; exact mem_append_left _ inside)
  · exact .inr (.inl (mem_append_left _ erased))
  · exact .inr (.inr (mem_append_left _ replaced))

section
variable {state : DelayClients} {index : Nat} {event : DelayEvent} {before after : DelayClient} {store : RedisWal}
  {entries : List DelayEntry} {messageId : String}
  (present : state.clients[index]? = some before)
  (moved : Move index state.history.length state.store event before after store entries)

include moved in
theorem index_move (indexed : messageId ∈ state.store.delayIndex) :
    messageId ∈ store.delayIndex ∨ holds messageId after = true := by
  cases moved with
  | save => exact .inl ((mem_insert _).mpr (.inr indexed))
  | @won _ taken =>
    by_cases same : messageId = taken
    · exact .inr (by simp [holds, same])
    · exact .inl (mem_erase.mpr ⟨same, indexed⟩)
  | @unindex _ taken =>
    by_cases same : messageId = taken
    · exact .inr (by simp [holds, same])
    · exact .inl (mem_erase.mpr ⟨same, indexed⟩)
  | _ => exact .inl indexed

include moved in
theorem indexed_move (indexed : messageId ∈ store.delayIndex) : messageId ∈ state.store.delayIndex ∨
    ∃ record, before = .storing record ∧ event = .command index ∧ record.message.id = messageId ∧ messageId ∈ store.delays := by
  cases moved with
  | @save record =>
    obtain rfl | kept := (mem_insert _).mp indexed
    · exact .inr ⟨record, rfl, rfl, rfl, (mem_insert _).mpr (.inl rfl)⟩
    · exact .inl kept
  | won | unindex => exact .inl (mem_erase.mp indexed).2
  | _ => exact .inl indexed

include moved in
theorem stored_move {record} (stored : .stored record ∈ entries) :
    store.delays.lookup record.message.id = some record := by
  cases moved with
  | @save saved =>
    have same : record = saved := by simpa using stored
    subst same
    exact lookup_insert _
  | _ => simp at stored

include moved in
theorem present_move (exclusive : holds messageId before = false) (stored : messageId ∈ state.store.delays) :
    messageId ∈ store.delays := by
  cases moved with
  | save => exact (mem_insert _).mpr (.inr stored)
  | delete => exact mem_erase.mpr ⟨Ne.symm (of_decide_eq_false exclusive), stored⟩
  | erase => exact mem_erase.mpr ⟨Ne.symm (of_decide_eq_false exclusive), stored⟩
  | _ => exact stored

include present moved in
theorem hold_move (calm : Calm state event) (held : holds messageId before = true) (kept : messageId ∈ store.delays) :
    holds messageId after = true := by
  cases moved with
  | read => exact held
  | @delete _ taken =>
    have same : taken = messageId := of_decide_eq_true held
    exact absurd same.symm (mem_erase.mp kept).1
  | @erase _ taken =>
    have same : taken = messageId := of_decide_eq_true held
    exact absurd same.symm (mem_erase.mp kept).1
  | fail =>
    have unclaimed := calm before present
    cases before with
    | reading | deleting | erasing => cases unclaimed
    | _ => cases held
  | _ => cases held

include moved in
theorem held_move (exclusive : holds messageId before = true → messageId ∉ state.store.delayIndex)
    (held : holds messageId after = true) : messageId ∉ store.delayIndex := by
  cases moved with
  | @won _ taken =>
    have same : taken = messageId := of_decide_eq_true held
    simp [mem_erase, same]
  | @unindex _ taken =>
    have same : taken = messageId := of_decide_eq_true held
    simp [mem_erase, same]
  | read => exact exclusive held
  | _ => cases held

include moved in
theorem payload_move {record}
    (current : ∀ fetch payload, before = .deleting fetch messageId payload → payload = some record)
    (found : state.store.delays.lookup messageId = some record) :
    store.delays.lookup messageId = some record ∨ .erased record ∈ entries ∨ .replaced record ∈ entries ∨
      record ∈ inHand after := by
  cases moved with
  | @save saved =>
    by_cases same : messageId = saved.message.id
    · subst same
      refine .inr (.inr (.inl (mem_append_left _ ?_)))
      simp [found]
    · exact .inl (by rw [lookup_insert_ne same]; exact found)
  | @delete fetch taken payload =>
    by_cases same : messageId = taken
    · subst same
      obtain rfl := current fetch payload rfl
      exact .inr (.inr (.inr (mem_append_right _ (mem_singleton_self _))))
    · exact .inl (by rw [lookup_erase_ne same]; exact found)
  | @erase _ taken =>
    by_cases same : messageId = taken
    · subst same
      exact .inr (.inl (by simp [found]))
    · exact .inl (by rw [lookup_erase_ne same]; exact found)
  | _ => exact .inl found

include present moved in
theorem inHand_move (calm : Calm state event) {record} (inside : record ∈ inHand before) :
    record ∈ inHand after ∨ record ∈ entries.flatMap replied := by
  cases moved with
  | won | lost | read => exact .inl inside
  | delete => exact .inl (mem_append_left _ inside)
  | returned => exact .inr (mem_flatMap.mpr ⟨_, mem_singleton_self _, inside⟩)
  | fail =>
    have unclaimed := calm before present
    cases before with
    | claiming fetch =>
      simp only [claimed, Bool.not_eq_false', List.isEmpty_iff] at unclaimed
      simp [inHand, unclaimed] at inside
    | reading | deleting => cases unclaimed
    | _ => cases inside
  | _ => cases inside

end

theorem Agreeing.step {state next event} (calm : Calm state event) (agreeing : Agreeing state)
    (stepped : state.step event = some next) : Agreeing next := by
  obtain ⟨index, before, after, store, entries, present, moved, rfl⟩ := step_moves stepped
  have member : before ∈ state.clients := mem_of_getElem? present
  have inside : index < state.clients.length := (List.getElem?_eq_some_iff.mp present).1
  have moves : after ∈ state.clients.set index after := mem_set inside after
  -- every other client keeps its place
  have stays : ∀ client ∈ state.clients, client = before ∨ client ∈ state.clients.set index after := by
    intro client held
    obtain ⟨place, found⟩ := mem_iff_getElem?.mp held
    by_cases same : place = index
    · subst same
      exact .inl (Option.some.inj (found.symm.trans present))
    · exact .inr (mem_iff_getElem?.mpr ⟨place, by rw [getElem?_set_ne (Ne.symm same)]; exact found⟩)
  have unheld : ∀ record, before = .storing record → event = .command index →
      ∀ client ∈ state.clients, holds record.message.id client = false := by
    rintro record rfl rfl
    exact calm record present
  refine ⟨?_, ?_, ?_, ?_, ?_⟩
  · intro messageId indexed
    obtain kept | ⟨_, _, _, _, stored⟩ := indexed_move moved indexed
    · refine present_move moved ?_ (agreeing.payload messageId kept)
      exact Bool.eq_false_iff.mpr fun held => agreeing.exclusive before member messageId held kept
    · exact stored
  · intro messageId stored
    obtain ⟨record, found⟩ := Option.isSome_iff_exists.mp (lookup_isSome.mpr stored)
    obtain found | ⟨_, _, _, _, indexed⟩ := moved.payload found
    · obtain indexed | ⟨client, held, holding⟩ :=
        agreeing.covered messageId (lookup_isSome.mp (by rw [found]; rfl))
      · obtain indexed | holding := index_move moved indexed
        · exact .inl indexed
        · exact .inr ⟨after, moves, holding⟩
      · obtain rfl | held := stays client held
        · exact .inr ⟨after, moves, hold_move present moved calm holding stored⟩
        · exact .inr ⟨client, held, holding⟩
    · exact .inl indexed
  · intro client held messageId holding indexed
    obtain held | rfl := mem_or_eq_of_mem_set held
    · obtain kept | ⟨record, storing, commanded, rfl, _⟩ := indexed_move moved indexed
      · exact agreeing.exclusive client held messageId holding kept
      · simp [unheld record storing commanded client held] at holding
    · exact held_move moved (agreeing.exclusive before member messageId) holding indexed
  · intro fetch messageId payload held record found
    obtain held | same := mem_or_eq_of_mem_set held
    · obtain found | ⟨storing, commanded, rfl, _⟩ := moved.payload found
      · exact agreeing.current fetch messageId payload held record found
      · have free := unheld record storing commanded _ held
        simp [holds] at free
    · cases moved with
      | read =>
        cases same
        exact found
      | _ => cases same
  · intro record stored
    obtain stored | stored := mem_append.mp stored
    · obtain found | accounted | ⟨client, held, handed⟩ := agreeing.kept record stored
      · have current : ∀ fetch payload, before = .deleting fetch record.message.id payload → payload = some record := by
          rintro fetch payload rfl
          exact agreeing.current fetch _ payload member record found
        obtain found | erased | replaced | handed := payload_move moved current found
        · exact .inl found
        · exact .inr (.inl (.inr (.inl (mem_append_right _ erased))))
        · exact .inr (.inl (.inr (.inr (mem_append_right _ replaced))))
        · exact .inr (.inr ⟨after, moves, handed⟩)
      · exact .inr (.inl accounted.append)
      · obtain rfl | held := stays client held
        · obtain handed | returned := inHand_move present moved calm handed
          · exact .inr (.inr ⟨after, moves, handed⟩)
          · refine .inr (.inl (.inl ?_))
            rw [update, flatMap_append]
            exact mem_append_right _ returned
        · exact .inr (.inr ⟨client, held, handed⟩)
    · exact .inl (stored_move moved stored)

instance Calm.decidable (state : DelayClients) : ∀ event, Decidable (Calm state event)
  | .command index =>
    match found : state.clients[index]? with
    | some (.storing record) =>
      decidable_of_iff (∀ client ∈ state.clients, holds record.message.id client = false) (by simp [Calm, found])
    | some .idle | some (.minting _) | some .stored | some (.listing _ _) | some (.claiming _) | some (.reading _ _)
    | some (.deleting _ _ _) | some (.removing _ _) | some (.erasing _ _) | some (.removed _ _) | none =>
      isTrue (by simp [Calm, found])
  | .fail index =>
    match found : state.clients[index]? with
    | some client => decidable_of_iff (claimed client = false) (by simp [Calm, found])
    | none => isTrue (by simp [Calm, found])
  | .start _ _ | .finish _ => instDecidableTrue

/-- In every run of calm steps the two keys agree and nothing is lost, whenever
no client is inside a call. -/
theorem calm_runs_agree {clients : Nat} {events : List DelayEvent} {state : DelayClients}
    (calm : Along DelayClients.step Calm (DelayClients.init clients) events)
    (ran : run DelayClients.step (DelayClients.init clients) events = some state) (quiet : Quiet state) :
    SameIds state ∧ NothingLost state := by
  have agreeing : Agreeing state := run_invariant Agreeing Agreeing.step calm (.init clients) ran
  exact agreeing.quiet quiet

private def dueRecord : WalRecord :=
  WalRecord.fromMsg { EMessage.new "m" 0 "t" [] .standard none with deliverAt := some 5000000 }

/-- A record is scheduled, rescheduled, fetched by one client and removed by another. -/
private def calmRun : List DelayEvent :=
  [.start 0 (.schedule dueRecord), .command 0, .command 0, .finish 0, .start 1 (.fetchReady 7000000), .command 1,
    .start 0 (.schedule dueRecord), .command 0, .command 0, .finish 0, .command 1, .command 1, .command 1, .finish 1,
    .start 0 (.removeScheduled "m"), .command 0, .command 0, .finish 0]

theorem calmRun_agrees : ∃ state ∈ run DelayClients.step (DelayClients.init 2) calmRun, SameIds state ∧ NothingLost state := by
  obtain ⟨state, ran, quiet⟩ : ∃ state ∈ run step (init 2) calmRun,
      ∀ client ∈ state.clients, client = .idle := by decide +kernel
  exact ⟨state, ran, calm_runs_agree (by decide +kernel) ran quiet⟩

/-- The id is scheduled again between another client's `HGET` and `HDEL`. -/
private def rescheduledRun : List DelayEvent :=
  [.start 0 (.schedule dueRecord), .command 0, .command 0, .finish 0, .start 1 (.fetchReady 7000000), .command 1,
    .command 1, .command 1, .start 0 (.schedule dueRecord), .command 0, .command 0, .finish 0, .command 1, .finish 1]

theorem rescheduled_record_lost :
    ∃ state ∈ run DelayClients.step (DelayClients.init 2) rescheduledRun,
      Quiet state ∧ ¬ SameIds state ∧ ¬ NothingLost state := by
  obtain ⟨state, ran, quiet, ⟨indexed, absent⟩, stored, lost⟩ :
      ∃ state ∈ run step (init 2) rescheduledRun, (∀ client ∈ state.clients, client = .idle) ∧
        ("m" ∈ state.store.delayIndex ∧ "m" ∉ state.store.delays) ∧
        .stored { dueRecord with recordId := 2 } ∈ state.history ∧
        ¬ (state.store.delays.lookup "m" = some { dueRecord with recordId := 2 } ∨
          { dueRecord with recordId := 2 } ∈ state.history.flatMap replied ∨
          .erased { dueRecord with recordId := 2 } ∈ state.history ∨
          .replaced { dueRecord with recordId := 2 } ∈ state.history) := by decide +kernel
  exact ⟨state, ran, quiet, fun same => absent ((same "m").mpr indexed), fun kept => lost (kept _ stored)⟩

end EventBase.Proofs.DelayAgreement
