import EventBase.Proofs.StatusReports

/-! A final status stays as long as nobody takes up a message whose id is finished or
still being reported on. A dead letter keeps the id of the message that failed, so the
worker that takes it up reopens the record. -/

namespace EventBase.Proofs.TerminalStatus
open Foundations StatusReports TaskLogic List Lifecycle

/-- The record of the id is open, and no call has anything left to report on it. -/
def Undecided (state : Lifecycle) (id : String) : Prop :=
  (∀ status ∈ state.wal.status id, status.isTerminal = false) ∧ ∀ task ∈ state.tasks, ∀ mark ∈ marks task, mark.1 ≠ id

instance (state : Lifecycle) (id : String) : Decidable (Undecided state id) := inferInstanceAs (Decidable (_ ∧ _))

def claimed : LifecycleEvent → List String
  | .take worker msg _ run => if isSystemTopic worker.topic then [] else [msg.id, run.message.id]
  | .fire _ _ | .emit _ _ => []

def TakesUndecided (state : Lifecycle) (event : LifecycleEvent) : Prop := ∀ id ∈ claimed event, Undecided state id

instance (state : Lifecycle) (event : LifecycleEvent) : Decidable (TakesUndecided state event) :=
  inferInstanceAs (Decidable (∀ id ∈ claimed event, Undecided state id))

structure Settled (state : Lifecycle) : Prop where
  final : ∀ task ∈ state.tasks, (marks task).Pairwise Keeps
  alone : ∀ (index other : Nat) first second, state.tasks[index]? = some first → state.tasks[other]? = some second →
    index ≠ other → ∀ mark ∈ marks first, ∀ also ∈ marks second, mark.1 ≠ also.1
  decided : ∀ id status, state.wal.status id = some status → status.isTerminal = true →
    ∀ task ∈ state.tasks, ∀ mark ∈ marks task, mark.1 = id → mark.2 = status

section
variable {backend : WalBackend} {store : DelayStore} {messageId other : String} {status : WalRecordState}
  {placeholder : EMessage}

theorem status_insert {records : Table WalRecord} {record : WalRecord} (written : record.status = status) (other : String) :
    ((records.insert messageId record).lookup other).map WalRecord.status =
      if other = messageId then some status else (records.lookup other).map WalRecord.status := by
  split
  · next same =>
    rw [same, AList.lookup_insert, ← written]
    rfl
  · next different => rw [AList.lookup_insert_ne different]

theorem status_updateState (other : String) :
    (store.updateState backend messageId status placeholder).status other =
        (if other = messageId then some status else store.status other) ∨
      (store.status messageId = none ∧
        (store.updateState backend messageId status placeholder).status other = store.status other) := by
  cases store with
  | inProcess store =>
    cases backend with
    | memory =>
      refine .inl ?_
      simp only [DelayStore.updateState, WalBackend.updateState, MemoryWal.updateState, DelayStore.status, DelayStore.records]
      split
      · exact status_insert rfl other
      · exact status_insert rfl other
    | persistent =>
      simp only [DelayStore.updateState, WalBackend.updateState, PersistentWal.apply, PersistentWal.updateState,
        DelayStore.status, DelayStore.records]
      cases found : store.records.lookup messageId with
      | some record => exact .inl (status_insert rfl other)
      | none => exact .inr ⟨rfl, rfl⟩
  | redis store =>
    simp only [DelayStore.updateState, RedisWal.apply, RedisWal.updateState, DelayStore.status, DelayStore.records]
    cases found : store.records.lookup messageId with
    | some record => exact .inl (status_insert rfl other)
    | none => exact .inr ⟨rfl, rfl⟩

end

theorem step_cases {backend} {state next : Lifecycle} {event} (stepped : state.step backend event = some next) :
    (∃ effects planned, next = { state with tasks := state.tasks ++ [effects] } ∧ (marks effects).Sublist planned ∧
      planned.Pairwise Keeps ∧ ∀ mark ∈ planned, mark.1 ∈ claimed event) ∨
    ∃ index effect rest placeholder, state.tasks[index]? = some (effect :: rest) ∧
      next = { state.apply backend placeholder effect with tasks := state.tasks.set index rest } := by
  cases event with
  | take worker msg env run =>
    simp only [step] at stepped
    split at stepped
    · cases stepped
      refine .inl ⟨_, plan worker run msg, rfl, (processMsg_reports env worker run msg).outcome, plan_final worker run msg, ?_⟩
      intro mark member
      obtain ⟨business, named⟩ := plan_ids member
      simpa [claimed, business] using named
    · cases stepped
  | fire record env =>
    simp only [step] at stepped
    split at stepped
    · cases stepped
      exact .inl ⟨_, [], rfl, (deliverDelayed_reports env record).outcome, .nil, by simp⟩
    · cases stepped
  | emit index placeholder =>
    simp only [step] at stepped
    split at stepped
    · next effect rest found =>
      cases stepped
      exact .inr ⟨index, effect, rest, placeholder, found, rfl⟩
    · cases stepped

section
variable {backend : WalBackend} {state : Lifecycle}

theorem Settled.add {effects} (settled : Settled state) (final : (marks effects).Pairwise Keeps)
    (undecided : ∀ mark ∈ marks effects, Undecided state mark.1) :
    Settled { state with tasks := state.tasks ++ [effects] } := by
  refine ⟨fun task member => ?_, fun index other first second found also different mark among again included => ?_,
    fun id status known terminal task member mark among named => ?_⟩
  · obtain member | rfl := mem_concat_cases member
    · exact settled.final task member
    · exact final
  · obtain ⟨_, rfl⟩ | old := getElem?_concat_cases found
    · obtain ⟨_, rfl⟩ | older := getElem?_concat_cases also
      · omega
      · intro same
        exact (undecided mark among).2 second (mem_of_getElem? older) again included same.symm
    · obtain ⟨_, rfl⟩ | older := getElem?_concat_cases also
      · exact (undecided again included).2 first (mem_of_getElem? old) mark among
      · exact settled.alone index other first second old older different mark among again included
  · obtain member | rfl := mem_concat_cases member
    · exact settled.decided id status known terminal task member mark among named
    · have unfinished := (undecided mark among).1 status (named ▸ known)
      rw [terminal] at unfinished
      cases unfinished

theorem marks_cons (effect : Effect) (rest : List Effect) :
    marks (effect :: rest) = (mark? effect).toList ++ marks rest := by
  cases found : mark? effect <;> simp [marks, found]

theorem status_apply {placeholder effect id status}
    (known : (state.apply backend placeholder effect).wal.status id = some status) :
    mark? effect = some (id, status) ∨ state.wal.status id = some status := by
  cases effect with
  | walSync sync =>
    obtain written | ⟨_, same⟩ := status_updateState id
    · have known := written.symm.trans known
      split at known
      · next same =>
        cases known
        exact .inl (by rw [same]; rfl)
      · exact .inr known
    · exact .inr (same.symm.trans known)
  | _ => exact .inr known

theorem status_apply_kept {placeholder effect id status} (known : state.wal.status id = some status)
    (agrees : ∀ mark, mark? effect = some mark → mark.1 = id → mark.2 = status) :
    (state.apply backend placeholder effect).wal.status id = some status := by
  cases effect with
  | walSync sync =>
    obtain written | ⟨_, same⟩ := status_updateState id
    · refine written.trans ?_
      split
      · next same => exact congrArg some (agrees _ rfl same.symm)
      · exact known
    · exact same.trans known
  | _ => exact known

section
variable {index : Nat} {effect : Effect} {rest : List Effect} (settled : Settled state)
  (found : state.tasks[index]? = some (effect :: rest))
include settled found

theorem Settled.agrees {id status} (known : state.wal.status id = some status) (terminal : status.isTerminal = true) :
    ∀ mark, mark? effect = some mark → mark.1 = id → mark.2 = status := by
  intro mark reported
  refine settled.decided id status known terminal _ (mem_of_getElem? found) mark ?_
  rw [marks_cons, reported]
  exact mem_cons_self

theorem Settled.emit (placeholder : EMessage) :
    Settled { state.apply backend placeholder effect with tasks := state.tasks.set index rest } := by
  have ordered := settled.final _ (mem_of_getElem? found)
  rw [marks_cons] at ordered
  have earlier : ∀ (other : Nat) task, (state.tasks.set index rest)[other]? = some task →
      ∃ before, state.tasks[other]? = some before ∧ (marks task).Sublist (marks before) := by
    intro other task present
    obtain ⟨rfl, rfl⟩ | ⟨_, kept⟩ := getElem?_set_cases present
    · refine ⟨_, found, ?_⟩
      rw [marks_cons]
      exact sublist_append_right _ _
    · exact ⟨task, kept, .refl _⟩
  refine ⟨fun task member => ?_, fun one other first second present also different mark among again included => ?_,
    fun id status known terminal task member mark among named => ?_⟩
  · obtain ⟨place, present⟩ := mem_iff_getElem?.mp member
    obtain ⟨before, held, part⟩ := earlier place task present
    exact (settled.final before (mem_of_getElem? held)).sublist part
  · obtain ⟨before, present, part⟩ := earlier one first present
    obtain ⟨previous, also, smaller⟩ := earlier other second also
    exact settled.alone one other before previous present also different mark (part.subset among) again (smaller.subset included)
  · obtain ⟨place, present⟩ := mem_iff_getElem?.mp member
    obtain reported | known := status_apply known
    · rw [reported] at ordered
      obtain ⟨rfl, rfl⟩ | ⟨different, kept⟩ := getElem?_set_cases present
      · exact (pairwise_cons.mp ordered).1 mark among named.symm terminal
      · have head : (id, status) ∈ marks (effect :: rest) := by
          rw [marks_cons, reported]
          exact mem_cons_self
        exact absurd named (settled.alone place index _ _ kept found different mark among _ head)
    · obtain ⟨before, held, part⟩ := earlier place task present
      exact settled.decided id status known terminal before (mem_of_getElem? held) mark (part.subset among) named

end

end

section
variable {backend : WalBackend} {state next : Lifecycle} {event : LifecycleEvent}

theorem Settled.step (undecided : TakesUndecided state event) (settled : Settled state)
    (stepped : state.step backend event = some next) : Settled next := by
  obtain ⟨effects, planned, rfl, part, final, named⟩ | ⟨index, effect, rest, placeholder, found, rfl⟩ := step_cases stepped
  · exact settled.add (final.sublist part) fun mark member => undecided mark.1 (named mark (part.subset member))
  · exact settled.emit found placeholder

theorem Settled.keeps (settled : Settled state) (stepped : state.step backend event = some next) {id}
    {status : WalRecordState} (known : state.wal.status id = some status) (terminal : status.isTerminal = true) :
    next.wal.status id = some status := by
  obtain ⟨effects, planned, rfl, _⟩ | ⟨index, effect, rest, placeholder, found, rfl⟩ := step_cases stepped
  · exact known
  · exact status_apply_kept known (settled.agrees found known terminal)

end

def initial (wal : DelayStore) (sent : List EMessage) : Lifecycle := { wal, sent }

theorem settled_initial (wal : DelayStore) (sent : List EMessage) : Settled (initial wal sent) :=
  ⟨by simp [initial], by simp [initial], by simp [initial]⟩

/-- In a run whose workers only take up undecided messages, a status that has become
final stays what it is. -/
theorem terminal_status_kept {backend : WalBackend} {wal : DelayStore} {sent : List EMessage} {before after : List LifecycleEvent}
    {middle last : Lifecycle} (undecided : Along (Lifecycle.step backend) TakesUndecided (initial wal sent) (before ++ after))
    (reached : run (Lifecycle.step backend) (initial wal sent) before = some middle)
    (continued : run (Lifecycle.step backend) middle after = some last) {id : String} {status : WalRecordState}
    (known : middle.wal.status id = some status) (terminal : status.isTerminal = true) : last.wal.status id = some status := by
  have settled : Settled middle := run_invariant Settled Settled.step undecided.of_append (settled_initial wal sent) reached
  have kept : Settled last ∧ last.wal.status id = some status := by
    refine run_invariant (fun state => Settled state ∧ state.wal.status id = some status) ?_
      (undecided.after_append reached) ⟨settled, known⟩ continued
    intro state event next admitted holds stepped
    exact ⟨holds.1.step admitted stepped, holds.1.keeps stepped holds.2 terminal⟩
  exact kept.2

private def ticket (id : String) : EMessage := EMessage.new id 0 "tickets" [] .standard none

private def ticketWal : DelayStore :=
  .inProcess ((WalStore.empty.append (WalRecord.fromMsg (ticket "a"))).append (WalRecord.fromMsg (ticket "b")))

private def clerk : Worker := { topic := "tickets", name := "clerk" }

private def office : Env := { nodeType := .host, registry := ∅ }

private def handled (task : Nat) (id : String) : List LifecycleEvent :=
  .take clerk (ticket id) office { answer := .ack, message := ticket id } :: List.replicate 4 (.emit task (ticket id))

theorem finished_ticket_stays :
    ∃ middle ∈ run (Lifecycle.step .persistent) (initial ticketWal [ticket "a", ticket "b"]) (handled 0 "a"),
      ∃ last ∈ run (Lifecycle.step .persistent) middle (handled 1 "b"),
        last.wal.status "b" = some .complete ∧ last.wal.status "a" = some .complete := by
  obtain ⟨middle, reached, known, last, continued, other⟩ :
      ∃ middle ∈ run (step .persistent) (initial ticketWal [ticket "a", ticket "b"]) (handled 0 "a"),
        middle.wal.status "a" = some .complete ∧
          ∃ last ∈ run (step .persistent) middle (handled 1 "b"), last.wal.status "b" = some .complete := by
    decide +kernel
  have undecided : Along (step .persistent) TakesUndecided (initial ticketWal [ticket "a", ticket "b"])
      (handled 0 "a" ++ handled 1 "b") := by decide +kernel
  exact ⟨middle, reached, last, continued, other, terminal_status_kept undecided reached continued known rfl⟩

private def refused : List LifecycleEvent :=
  .take clerk (ticket "a") office { answer := .dead .explicit, message := ticket "a" } ::
    List.replicate 6 (.emit 0 (ticket "a"))

private def archivist : Worker := { topic := "dead_letter.tickets", name := "archivist" }

private def deadTicket : EMessage := { ticket "a" with topic := "dead_letter.tickets" }

/-- The worker that takes up the letter marks the failed ticket as being processed. -/
private def archived : List LifecycleEvent :=
  [.take archivist deadTicket office { answer := .ack, message := deadTicket }, .emit 1 deadTicket, .emit 1 deadTicket]

theorem failed_ticket_reopened :
    ∃ middle ∈ run (Lifecycle.step .persistent) (initial ticketWal [ticket "a"]) refused,
      ∃ last ∈ run (Lifecycle.step .persistent) middle archived,
        middle.wal.status "a" = some .failed ∧ last.wal.status "a" = some .processing := by
  decide +kernel

end EventBase.Proofs.TerminalStatus
