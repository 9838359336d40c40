import EventBase.RedisDelays

/-! What one step of one delay client can do. A client that nobody interrupts
computes the calls of `RedisWal`. -/

namespace EventBase.Proofs.DelaySteps
open Foundations List Option DelayClients

variable {call : Nat} {store : RedisWal} {client next : DelayClient} {entries : List DelayEntry}

inductive Move (index call : Nat) (store : RedisWal) :
    DelayEvent → DelayClient → DelayClient → RedisWal → List DelayEntry → Prop
  | schedule {record} :
    Move index call store (.start index (.schedule record)) .idle (.minting record) store []
  | fetch {now} :
    Move index call store (.start index (.fetchReady now)) .idle (.listing call now) store [.fetchBegan call]
  | remove {messageId} :
    Move index call store (.start index (.removeScheduled messageId)) .idle (.removing call messageId) store
      [.removeBegan call messageId]
  | mint {record} :
    Move index call store (.command index) (.minting record) (.storing { record with recordId := store.idCounter + 1 })
      { store with idCounter := store.idCounter + 1 } []
  | save {record} :
    Move index call store (.command index) (.storing record) .stored
      { store with
        delays := store.delays.insert record.message.id record
        delayIndex := store.delayIndex.insert record.message.id (score (deliverAtMillis record)) }
      ((store.delays.lookup record.message.id).toList.map .replaced ++ [.stored record])
  | list {began now} :
    Move index call store (.command index) (.listing began now) (.claiming ⟨began, now, store.dueIds now, []⟩) store []
  | won {fetch messageId rest} (due : fetch.due = messageId :: rest)
    (indexed : messageId ∈ store.delayIndex) :
    Move index call store (.command index) (.claiming fetch) (.reading { fetch with due := rest } messageId)
      { store with delayIndex := store.delayIndex.erase messageId } []
  | lost {fetch messageId rest} (due : fetch.due = messageId :: rest)
    (taken : messageId ∉ store.delayIndex) :
    Move index call store (.command index) (.claiming fetch) (.claiming { fetch with due := rest }) store []
  | read {fetch messageId} :
    Move index call store (.command index) (.reading fetch messageId)
      (.deleting fetch messageId (store.delays.lookup messageId)) store []
  | delete {fetch messageId payload} :
    Move index call store (.command index) (.deleting fetch messageId payload)
      (.claiming { fetch with ready := fetch.ready ++ payload.toList })
      { store with delays := store.delays.erase messageId } []
  | unindex {began messageId} :
    Move index call store (.command index) (.removing began messageId) (.erasing began messageId)
      { store with delayIndex := store.delayIndex.erase messageId } []
  | erase {began messageId} :
    Move index call store (.command index) (.erasing began messageId) (.removed began messageId)
      { store with delays := store.delays.erase messageId } ((store.delays.lookup messageId).toList.map .erased)
  | scheduled : Move index call store (.finish index) .stored .idle store []
  | returned {began now ready} :
    Move index call store (.finish index) (.claiming ⟨began, now, [], ready⟩) .idle store [.returned began now ready]
  | removed {began messageId} :
    Move index call store (.finish index) (.removed began messageId) .idle store [.removeDone began messageId]
  | fail {client : DelayClient} : Move index call store (.fail index) client .idle store []

/-- A payload is in the hash because it was there, or because this step stores it. -/
theorem Move.payload {index event before after messageId record} {state : RedisWal}
    (moved : Move index call state event before after store entries) (found : store.delays.lookup messageId = some record) :
    state.delays.lookup messageId = some record ∨ (before = .storing record ∧ event = .command index ∧
      record.message.id = messageId ∧ .stored record ∈ entries ∧ messageId ∈ store.delayIndex) := by
  cases moved with
  | save =>
    obtain ⟨rfl, rfl⟩ | ⟨_, kept⟩ := lookup_insert_cases found
    · exact .inr ⟨rfl, rfl, rfl, mem_append_right _ (mem_singleton_self _), (AList.mem_insert _).mpr (.inl rfl)⟩
    · exact .inl kept
  | delete | erase => exact .inl (lookup_erase_cases found).2
  | _ => exact .inl found

theorem command_moves {index after} (ran : client.command store = some (next, after, entries)) :
    Move index call store (.command index) client next after entries := by
  cases client with
  | minting record => cases ran; exact .mint
  | storing record =>
    simp only [DelayClient.command] at ran
    split at ran
    · cases ran; exact .save
    · cases ran
  | listing began now => cases ran; exact .list
  | claiming fetch =>
    simp only [DelayClient.command] at ran
    split at ran
    · cases ran
    · next due =>
      split at ran
      · next indexed => cases ran; exact .won due indexed
      · next taken => cases ran; exact .lost due taken
  | reading fetch messageId => cases ran; exact .read
  | deleting fetch messageId payload => cases ran; exact .delete
  | removing began messageId => cases ran; exact .unindex
  | erasing began messageId => cases ran; exact .erase
  | _ => cases ran

theorem start_moves {index request} (ran : client.start call request = some (next, entries)) :
    Move index call store (.start index request) client next store entries := by
  cases client with
  | idle =>
    cases request with
    | schedule record => cases ran; exact .schedule
    | fetchReady now => cases ran; exact .fetch
    | removeScheduled messageId => cases ran; exact .remove
  | _ => cases ran

theorem finish_moves {index} (ran : client.finish = some entries) :
    Move index call store (.finish index) client .idle store entries := by
  cases client with
  | stored => cases ran; exact .scheduled
  | claiming fetch =>
    obtain ⟨began, now, due, ready⟩ := fetch
    cases due with
    | nil => cases ran; exact .returned
    | cons _ _ => cases ran
  | removed began messageId => cases ran; exact .removed
  | _ => cases ran

theorem step_moves {state next : DelayClients} {event} (stepped : state.step event = some next) :
    ∃ index before after store entries, state.clients[index]? = some before ∧
      Move index state.history.length state.store event before after store entries ∧
      next = state.update index after store entries := by
  cases event with
  | start index request =>
    obtain ⟨client, present, stepped⟩ := bind_eq_some_iff.mp stepped
    obtain ⟨⟨after, entries⟩, ran, moved⟩ := bind_eq_some_iff.mp stepped
    cases moved
    exact ⟨index, client, after, _, entries, present, start_moves ran, rfl⟩
  | command index =>
    obtain ⟨client, present, stepped⟩ := bind_eq_some_iff.mp stepped
    obtain ⟨⟨after, store, entries⟩, ran, moved⟩ := bind_eq_some_iff.mp stepped
    cases moved
    exact ⟨index, client, after, store, entries, present, command_moves ran, rfl⟩
  | finish index =>
    obtain ⟨client, present, stepped⟩ := bind_eq_some_iff.mp stepped
    obtain ⟨entries, ran, moved⟩ := bind_eq_some_iff.mp stepped
    cases moved
    exact ⟨index, client, .idle, _, entries, present, finish_moves ran, rfl⟩
  | fail index =>
    obtain ⟨client, present, ran⟩ := bind_eq_some_iff.mp stepped
    split at ran
    · cases ran
    · cases ran
      exact ⟨index, client, .idle, _, [], present, .fail, rfl⟩

section
variable {state : DelayClients} {index : Nat}

@[simp] theorem update_update (first second : DelayClient) (store later : RedisWal) (entries more : List DelayEntry) :
    (state.update index first store entries).update index second later more =
      state.update index second later (entries ++ more) := by
  simp [update]

theorem update_at (inside : index < state.clients.length) (client : DelayClient) (store : RedisWal)
    (entries : List DelayEntry) : (state.update index client store entries).clients[index]? = some client := by
  simp [update, inside]

private theorem command_alone (inside : index < state.clients.length) (client : DelayClient) {after more}
    (ran : client.command store = some (next, after, more)) :
    (state.update index client store entries).step (.command index) = some (state.update index next after (entries ++ more)) := by
  have held := update_at inside client store entries
  simp only [step, held, bind_eq_bind, bind_some]
  have same : (state.update index client store entries).store = store := rfl
  rw [same, ran]
  simp

private theorem start_alone (idle : state.clients[index]? = some .idle) {call}
    (ran : DelayClient.start state.history.length .idle call = some (next, entries)) :
    state.step (.start index call) = some (state.update index next state.store entries) := by
  simp [step, idle, ran]

private theorem finish_alone (inside : index < state.clients.length) (client : DelayClient) {more}
    (ran : client.finish = some more) :
    (state.update index client store entries).step (.finish index) = some (state.update index .idle store (entries ++ more)) := by
  simp only [step, update_at inside client store entries, ran, bind_eq_bind, bind_some,
    Option.pure_def, update_update]
  rfl

private theorem loop_alone (inside : index < state.clients.length) (call : Nat) (now : SystemTime) (due : List String)
    (ready : List WalRecord) (store : RedisWal) (entries : List DelayEntry) :
    ∃ events, run step (state.update index (.claiming ⟨call, now, due, ready⟩) store entries) events =
      some (state.update index (.claiming ⟨call, now, [], (due.foldl RedisWal.claimDue (ready, store)).1⟩)
        (due.foldl RedisWal.claimDue (ready, store)).2 entries) := by
  induction due generalizing ready store with
  | nil => exact ⟨[], rfl⟩
  | cons messageId rest ih =>
    by_cases indexed : messageId ∈ store.delayIndex
    · have claimed : RedisWal.claimDue (ready, store) messageId = (ready ++ (store.delays.lookup messageId).toList,
          { store with delayIndex := store.delayIndex.erase messageId, delays := store.delays.erase messageId }) :=
        if_pos indexed
      obtain ⟨events, ran⟩ := ih (ready ++ (store.delays.lookup messageId).toList)
        { store with delayIndex := store.delayIndex.erase messageId, delays := store.delays.erase messageId }
      refine ⟨.command index :: .command index :: .command index :: events, ?_⟩
      have won : DelayClient.command store (.claiming ⟨call, now, messageId :: rest, ready⟩) = some (_, _, _) := if_pos indexed
      simp only [run, command_alone inside _ won, bind_some, append_nil,
        command_alone inside (.reading _ _) rfl, command_alone inside (.deleting _ _ _) rfl]
      rw [foldl_cons, claimed]
      exact ran
    · have claimed : RedisWal.claimDue (ready, store) messageId = (ready, store) := if_neg indexed
      obtain ⟨events, ran⟩ := ih ready store
      refine ⟨.command index :: events, ?_⟩
      have lost : DelayClient.command store (.claiming ⟨call, now, messageId :: rest, ready⟩) = some (_, _, _) :=
        if_neg indexed
      simp only [run, command_alone inside _ lost, bind_some, append_nil]
      rw [foldl_cons, claimed]
      exact ran

def op : DelayCall → WalOp
  | .schedule record => .schedule record
  | .fetchReady now => .fetchReady now
  | .removeScheduled messageId => .removeScheduled messageId

/-- A call that nobody interrupts leaves the store `RedisWal` computes, and a
`fetch_ready` returns its records. -/
theorem uninterrupted_call (idle : state.clients[index]? = some .idle) (call : DelayCall)
    (encodes : ∀ record, call = .schedule record → record.Encodable) :
    ∃ events final, run DelayClients.step state (.start index call :: events) = some final ∧
      final.store = state.store.apply (op call) ∧ final.clients = state.clients ∧
      ∀ now, call = .fetchReady now → .returned state.history.length now (state.store.fetchReady now).1 ∈ final.history := by
  obtain ⟨inside, same⟩ := List.getElem?_eq_some_iff.mp idle
  have unchanged : state.clients.set index .idle = state.clients := by rw [← same, List.set_getElem_self]
  cases call with
  | schedule record =>
    refine ⟨[.command index, .command index, .finish index],
      state.update index .idle (state.store.schedule record)
        ((state.store.delays.lookup record.message.id).toList.map .replaced ++
          [.stored { record with recordId := state.store.idCounter + 1 }]), ?_, rfl, unchanged, by simp⟩
    have started : state.step (.start index (.schedule record)) = some _ := start_alone idle rfl
    have saved (store) : DelayClient.command store (.storing { record with recordId := state.store.idCounter + 1 }) =
      some (_, _, _) := if_pos (encodes record rfl)
    simp only [run, started, command_alone inside (.minting _) rfl, command_alone inside _ (saved _),
      finish_alone inside .stored rfl, bind_some, nil_append, append_nil]
    rfl
  | removeScheduled messageId =>
    refine ⟨[.command index, .command index, .finish index],
      state.update index .idle (state.store.removeScheduled messageId)
        (.removeBegan state.history.length messageId :: ((state.store.delays.lookup messageId).toList.map .erased ++
          [.removeDone state.history.length messageId])), ?_, rfl, unchanged, by simp⟩
    have started : state.step (.start index (.removeScheduled messageId)) = some _ := start_alone idle rfl
    simp only [run, started, command_alone inside (.removing _ _) rfl, command_alone inside (.erasing _ _) rfl,
      finish_alone inside (.removed _ _) rfl, bind_some, append_nil, cons_append]
    rfl
  | fetchReady now =>
    obtain ⟨events, looped⟩ := loop_alone inside state.history.length now (state.store.dueIds now) [] state.store
      [.fetchBegan state.history.length]
    refine ⟨.command index :: (events ++ [.finish index]),
      state.update index .idle (state.store.fetchReady now).2
        ([.fetchBegan state.history.length] ++ [.returned state.history.length now (state.store.fetchReady now).1]),
      ?_, rfl, unchanged, ?_⟩
    · have started : state.step (.start index (.fetchReady now)) = some _ := start_alone idle rfl
      simp only [run, started, command_alone inside (.listing _ _) rfl, bind_some, append_nil, run_append, looped,
        finish_alone inside (.claiming ⟨_, _, [], _⟩) rfl]
      rfl
    · intro other same
      cases same
      exact mem_append_right _ (mem_cons_of_mem _ (mem_singleton_self _))

end

private def due : WalRecord := WalRecord.fromMsg { EMessage.new "m" 0 "t" [] .standard none with deliverAt := some 5000000 }

theorem due_stored_alone : ∃ events final,
    run DelayClients.step (.init 1) (.start 0 (.schedule due) :: events) = some final ∧ final.clients = [.idle] ∧
      final.store.delays.lookup "m" = some { due with recordId := 1 } := by
  have encodes : ∀ record, .schedule due = DelayCall.schedule record → record.Encodable := by
    rintro _ ⟨⟩
    decide
  obtain ⟨events, final, ran, stored, same, _⟩ := @uninterrupted_call (.init 1) 0 rfl (.schedule due) encodes
  exact ⟨events, final, ran, same, stored ▸ rfl⟩

end EventBase.Proofs.DelaySteps
