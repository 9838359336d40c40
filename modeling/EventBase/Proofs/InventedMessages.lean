import EventBase.Foundations.Descent
import EventBase.MemoryHistory
import EventBase.Proofs.WalInterchange

/-! Which messages the memory WAL gives back: those that were logged, and placeholders for
ids that it did not know. -/

namespace EventBase.Proofs.InventedMessages
open Foundations WalInterchange List AList MemoryHistory

/-- Every record is kept under the id of its message, and the messages that a replay or
a fetch would return now were passed to `append` and to `schedule`. -/
structure Genuine (history : MemoryHistory) : Prop where
  keyed : ∀ messageId record, history.store.records.lookup messageId = some record → record.message.id = messageId
  replayed : ∀ record ∈ history.store.replayPending, record.message ∈ history.appended
  fetched : ∀ now, ∀ record ∈ (history.store.fetchReady now).1, record.message ∈ history.scheduled

def Known (history : MemoryHistory) : MemoryCall → Prop
  | .updateState messageId _ _ _ => messageId ∈ history.store.records
  | _ => True

instance (history : MemoryHistory) : ∀ call, Decidable (Known history call)
  | .updateState messageId _ _ _ => inferInstanceAs (Decidable (messageId ∈ history.store.records))
  | .append _ | .schedule _ | .fetchReady _ | .removeScheduled _ => isTrue trivial

structure Filed (history : MemoryHistory) : Prop where
  records : ∀ messageId record, history.store.records.lookup messageId = some record →
    record.message.id = messageId ∧ record.message ∈ history.appended
  delays : ∀ messageId record, history.store.delays.lookup messageId = some record → record.message ∈ history.scheduled

theorem Filed.genuine {history} (filed : Filed history) : Genuine history where
  keyed messageId record found := (filed.records messageId record found).1
  replayed record member := by
    obtain ⟨⟨messageId, _⟩, entry, rfl⟩ := mem_map.mp (mem_filter.mp member).1
    exact (filed.records messageId _ (mem_lookup_iff.mpr entry)).2
  fetched now record member := by
    obtain ⟨⟨messageId, _⟩, entry, rfl⟩ := mem_map.mp member
    exact filed.delays messageId _ (mem_lookup_iff.mpr (mem_filter.mp entry).1)

section
variable {history next : MemoryHistory} {call : MemoryCall}

theorem Filed.append (filed : Filed history) (record : WalRecord) :
    Filed { history with store := history.store.append record, appended := history.appended ++ [record.message] } where
  records messageId other found := by
    rcases lookup_insert_cases found with ⟨rfl, rfl⟩ | ⟨-, old⟩
    · exact ⟨rfl, mem_append_right _ mem_cons_self⟩
    · exact (filed.records messageId other old).imp_right (mem_append_left _)
  delays := filed.delays

theorem Filed.schedule (filed : Filed history) (record : WalRecord) :
    Filed { history with store := history.store.schedule record, scheduled := history.scheduled ++ [record.message] } where
  records := filed.records
  delays messageId other found := by
    rcases lookup_insert_cases found with ⟨rfl, rfl⟩ | ⟨-, old⟩
    · exact mem_append_right _ mem_cons_self
    · exact mem_append_left _ (filed.delays messageId other old)

theorem Filed.setStatus (filed : Filed history) {messageId} (known : messageId ∈ history.store.records)
    (status : WalRecordState) (placeholder : EMessage) :
    Filed { history with store := MemoryWal.updateState history.store messageId status placeholder } := by
  obtain ⟨record, found⟩ := Option.isSome_iff_exists.mp (lookup_isSome.mpr known)
  simp only [MemoryWal.updateState, found]
  refine ⟨fun other updated present => ?_, filed.delays⟩
  rcases lookup_insert_cases present with ⟨rfl, rfl⟩ | ⟨-, old⟩
  · exact filed.records other record found
  · exact filed.records other updated old

theorem Filed.fetchReady (filed : Filed history) (now : SystemTime) :
    Filed { history with store := (history.store.fetchReady now).2 } := by
  rw [file_fetchReady]
  refine ⟨filed.records, fun messageId record found => ?_⟩
  apply filed.delays messageId
  rw [lookup_foldl_erase] at found
  split at found
  · cases found
  · exact found

theorem Filed.step (filed : Filed history) (known : Known history call) (stepped : history.step call = some next) :
    Filed next := by
  cases call with
  | append record =>
    cases stepped
    exact filed.append record
  | updateState messageId status uuid createdAt =>
    simp only [step] at stepped
    split at stepped
    · cases stepped
    · cases stepped
      exact filed.setStatus known status _
  | schedule record =>
    cases stepped
    exact filed.schedule record
  | fetchReady now =>
    cases stepped
    exact filed.fetchReady now
  | removeScheduled messageId =>
    cases stepped
    refine ⟨filed.records, fun other record found => ?_⟩
    exact filed.delays other record (lookup_erase_cases found).2

theorem not_keyed_of_unknown {messageId} (unknown : messageId ∉ history.store.records) {status uuid createdAt}
    (fresh : uuid ≠ messageId) :
    ¬ Genuine { history with
      store := MemoryWal.updateState history.store messageId status (MemoryWal.placeholder uuid createdAt) } := by
  intro genuine
  have absent : history.store.records.lookup messageId = none := lookup_eq_none.mpr unknown
  have keyed := genuine.keyed messageId
  simp only [MemoryWal.updateState, absent, lookup_insert] at keyed
  exact fresh (keyed _ rfl)

theorem known_of_genuine (stepped : history.step call = some next) (genuine : Genuine next) : Known history call := by
  cases call with
  | updateState messageId status uuid createdAt =>
    simp only [step] at stepped
    split at stepped
    · cases stepped
    · next fresh =>
      cases stepped
      by_contra unknown
      exact not_keyed_of_unknown unknown fresh genuine
  | append | schedule | fetchReady | removeScheduled => trivial

end

theorem filed_init : Filed {} where
  records _ _ found := by cases found
  delays _ _ found := by cases found

/-- For every sequence of calls: everything the WAL holds and would hand out is genuine
in every state on the way, if and only if no call sets the status of an unknown
message. -/
theorem genuine_iff_known {calls last} (ran : run step {} calls = some last) :
    (∀ before after history, calls = before ++ after → run step {} before = some history → Genuine history) ↔
      Along step Known {} calls := by
  apply prefixes_iff_along Filed filed_init
  · exact fun known filed stepped => Filed.step filed known stepped
  · exact fun filed => filed.genuine
  · exact fun _ stepped genuine => known_of_genuine stepped genuine
  · exact ran

private def order : EMessage := EMessage.new "m" 0 "orders" [] .standard none

private def calls : List MemoryCall :=
  [.append (WalRecord.fromMsg order), .updateState "m" .processing "u" 1, .updateState "m" .pending "v" 2]

theorem logged_order_genuine : ∃ history, run MemoryHistory.step {} calls = some history ∧
    history.store.replayPending.map WalRecord.message = [order] ∧ Genuine history := by
  have known : Along step Known {} calls := by decide +kernel
  have replayed : (run step {} calls).map (fun history => history.store.replayPending.map WalRecord.message) =
      some [order] := by decide +kernel
  obtain ⟨history, ran, pending⟩ := Option.map_eq_some_iff.mp replayed
  exact ⟨history, ran, pending, (genuine_iff_known ran).mpr known calls [] history (append_nil calls).symm ran⟩

/-- A status report for a message that was never appended. -/
theorem unknown_status_invents : ∃ history, run MemoryHistory.step {} [.updateState "m" .pending "u" 1] = some history ∧
    history.store.replayPending.map WalRecord.message = [EMessage.new "u" 1 "" [] .standard none] ∧ history.appended = [] ∧
      (history.store.records.lookup "m").map (fun record => record.message.id) = some "u" ∧ ¬ Genuine history := by
  refine ⟨_, rfl, by decide +kernel, rfl, by decide +kernel, ?_⟩
  exact not_keyed_of_unknown (notMem_empty "m") (by decide)

end EventBase.Proofs.InventedMessages
