import EventBase.Foundations.Descent
import EventBase.Proofs.OutstandingCopies

/-! What a durable WAL knows of a dead letter. A report only changes the status of the
record it names, so the reason is in no record. -/

namespace EventBase.Proofs.DeathReasons
open Foundations LoggedWork LoggedCopies OutstandingCopies Option

def deathReason (worker : Worker) (run : PipelineRun) : Option DeadReason :=
  if isSystemTopic worker.topic then none
  else match worker.status run with
    | .ack => none
    | .noAck _ maxRetries => if maxRetries ≤ run.message.attempts + 1 then some .maxRetriesExceeded else none
    | .dead reason => some reason

def death : Event → Option (String × DeadReason)
  | .take _ _ _ worker _ run => (deathReason worker run).map (Prod.mk run.message.id)
  | .submit _ _ _ _ | .fetch _ | .deliver _ _ | .emit _ => none

/-- The records say which messages have died, and why. -/
structure KnowsWhy (events : List Event) (state : State) : Prop where
  marked : ∀ id record, state.wal.records.lookup id = some record → (record.status = .failed ↔ record.isDeadLetter = true)
  explained : ∀ id record, state.wal.records.lookup id = some record → record.isDeadLetter = true →
    ∃ reason, record.deadReason = some reason ∧ (id, reason) ∈ events.filterMap death

def report (state : State) : Event → Option WalSyncMessage
  | .emit index =>
    match state.calls[index]? with
    | some ⟨_, .walSync sync :: _, _⟩ => some sync
    | _ => none
  | .submit _ _ _ _ | .take _ _ _ _ _ _ | .fetch _ | .deliver _ _ => none

def SparesRecords (state : State) (event : Event) : Prop :=
  ∀ sync ∈ report state event, sync.status = .failed → sync.messageId ∉ state.wal.records

instance (state : State) (event : Event) : Decidable (SparesRecords state event) :=
  inferInstanceAs (Decidable (∀ sync ∈ report state event, _))

section
variable {width : Nat} {state next : State} {event : Event}

theorem step_records (stepped : step width state event = some next) :
    (∃ message, next.wal = state.wal.append (WalRecord.fromMsg message) ∧ report state event = none) ∨
      (∃ sync, report state event = some sync ∧ next.wal = state.wal.sync sync) ∨
      next.wal.records = state.wal.records ∧ report state event = none := by
  cases event with
  | submit message env trySend timeout =>
    obtain ⟨-, rfl⟩ := guarded_step stepped
    exact .inl ⟨message, rfl, rfl⟩
  | take index toWorker attempts worker env run =>
    simp only [step] at stepped
    split at stepped
    · cases stepped
    · obtain ⟨-, rfl⟩ := guarded_step stepped
      exact .inr (.inr ⟨rfl, rfl⟩)
  | fetch now =>
    cases stepped
    exact .inr (.inr ⟨records_fetchReady now, rfl⟩)
  | deliver record env =>
    obtain ⟨-, rfl⟩ := guarded_step stepped
    exact .inr (.inr ⟨rfl, rfl⟩)
  | emit index =>
    simp only [step] at stepped
    split at stepped
    · next message effect rest concludes found =>
      cases stepped
      right
      cases effect with
      | walSync sync => exact .inl ⟨sync, by simp only [report, found], rfl⟩
      | schedule record => exact .inr ⟨records_schedule record, by simp only [report, found]⟩
      | audit | publish | requeue => exact .inr ⟨rfl, by simp only [report, found]⟩
    · cases stepped

def Unmarked (state : State) : Prop := ∀ id record, state.wal.records.lookup id = some record → record.isDeadLetter = false

def Alive (state : State) : Prop := ∀ id record, state.wal.records.lookup id = some record → record.status ≠ .failed

theorem append_unmarked {store : DelayStore} {message id} {found : WalRecord}
    (present : (store.append (WalRecord.fromMsg message)).records.lookup id = some found) :
    found.isDeadLetter = false ∨ store.records.lookup id = some found := by
  cases store with
  | inProcess store | redis store =>
    obtain ⟨rfl, rfl⟩ | ⟨-, kept⟩ := lookup_insert_cases present
    · exact .inl rfl
    · exact .inr kept

theorem sync_cases {store : DelayStore} {sync : WalSyncMessage} {id found}
    (present : (store.sync sync).records.lookup id = some found) :
    ∃ before, store.records.lookup id = some before ∧
      found = if id = sync.messageId then { before with status := sync.status } else before := by
  rw [sync_lookup] at present
  obtain ⟨before, held, rfl⟩ := map_eq_some_iff.mp present
  exact ⟨before, held, rfl⟩

theorem Unmarked.step (unmarked : Unmarked state) (stepped : step width state event = some next) : Unmarked next := by
  intro id found present
  obtain ⟨message, wal, -⟩ | ⟨sync, -, wal⟩ | ⟨same, -⟩ := step_records stepped
  · rw [wal] at present
    obtain fresh | kept := append_unmarked present
    · exact fresh
    · exact unmarked id found kept
  · rw [wal] at present
    obtain ⟨before, held, rfl⟩ := sync_cases present
    have plain := unmarked id before held
    split
    · exact plain
    · exact plain
  · rw [same] at present
    exact unmarked id found present

theorem Alive.step (spares : SparesRecords state event) (alive : Alive state) (stepped : step width state event = some next) :
    Alive next := by
  intro id found present
  obtain ⟨message, wal, -⟩ | ⟨sync, reported, wal⟩ | ⟨same, -⟩ := step_records stepped
  · rw [wal] at present
    obtain ⟨-, -, status⟩ | ⟨-, kept⟩ := append_lookup present
    · rw [status]
      exact WalRecordState.noConfusion
    · exact alive id found kept
  · rw [wal] at present
    obtain ⟨before, held, rfl⟩ := sync_cases present
    split
    · next named =>
      intro dead
      apply spares sync reported dead
      rw [← named, ← AList.lookup_isSome, held]
      rfl
    · exact alive id before held
  · rw [same] at present
    exact alive id found present

theorem KnowsWhy.of_alive {events} (unmarked : Unmarked state) (alive : Alive state) : KnowsWhy events state where
  marked id record found := by
    rw [unmarked id record found]
    exact ⟨fun dead => absurd dead (alive id record found), nofun⟩
  explained id record found marked := by
    rw [unmarked id record found] at marked
    cases marked

theorem spares_of_knowsWhy {events} (unmarked : Unmarked state) (stepped : step width state event = some next)
    (knows : KnowsWhy events next) : SparesRecords state event := by
  intro sync reported dead known
  obtain ⟨message, -, silent⟩ | ⟨other, same, wal⟩ | ⟨-, silent⟩ := step_records stepped
  · cases silent.symm.trans reported
  · cases same.symm.trans reported
    obtain ⟨record, held⟩ := isSome_iff_exists.mp (AList.lookup_isSome.mpr known)
    have written : next.wal.records.lookup sync.messageId = some { record with status := .failed } := by
      rw [wal, sync_lookup, held, map_some, if_pos rfl, dead]
    have marked := (knows.marked sync.messageId _ written).mp rfl
    cases (unmarked sync.messageId record held).symm.trans marked
  · cases silent.symm.trans reported

end

/-- In every run of the workers on a durable WAL: the records say which messages have died
and why, in every state on the way, if and only if no death of a recorded message is
reported. -/
theorem reasons_known_iff {width : Nat} {wal : DelayStore} {events : List Event} {last : State} (blank : Blank wal)
    (ran : run (step width) { wal } events = some last) :
    (∀ before after state, events = before ++ after → run (step width) { wal } before = some state → KnowsWhy before state) ↔
      Along (step width) SparesRecords { wal } events := by
  have unmarked : Unmarked { wal } := fun id record found => by simp [blank.1] at found
  have alive : Alive { wal } := fun id record found => by simp [blank.1] at found
  apply prefixes_iff_along (fun state => Unmarked state ∧ Alive state) ⟨unmarked, alive⟩
  · exact fun spares kept stepped => ⟨kept.1.step stepped, kept.2.step spares stepped⟩
  · exact fun kept => .of_alive kept.1 kept.2
  · intro before state event next reached stepped knows
    exact spares_of_knowsWhy (run_preserves Unmarked (fun plain stepped => plain.step stepped) unmarked reached) stepped knows
  · exact ran

private def order : EMessage := EMessage.new "m" 0 "orders" [] .standard none

private def kitchen : Env := { nodeType := .host, registry := ∅ }

private def cook : Worker := { topic := "orders", name := "cook" }

/-- The order is logged and sent, the cook takes it up, and four effects of the call follow. -/
private def served (answer : Ack) : List Event :=
  [.submit order kitchen none none, .emit 0, .take 0 none 0 cook kitchen { answer, message := order }] ++
    List.replicate 4 (.emit 1)

theorem cooked_order_known : ∃ state, run (step 1) { wal := .redis .empty } (served .ack) = some state ∧
    state.wal.status "m" = some .complete ∧ KnowsWhy (served .ack) state := by
  have spares : Along (step 1) SparesRecords { wal := .redis .empty } (served .ack) := by decide +kernel
  have complete : (run (step 1) { wal := .redis .empty } (served .ack)).bind (fun state => state.wal.status "m") = some .complete := by
    decide +kernel
  obtain ⟨state, ran, status⟩ := bind_eq_some_iff.mp complete
  refine ⟨state, ran, status, ?_⟩
  exact (reasons_known_iff ⟨rfl, rfl⟩ ran).mpr spares (served .ack) [] state (List.append_nil _).symm ran

/-- The cook rejects the order; its record is `Failed`, not marked and without a reason. -/
theorem rejected_order_unexplained : ∃ state record,
    run (step 1) { wal := .inProcess .empty } (served (.dead .explicit)) = some state ∧
      state.wal.records.lookup "m" = some record ∧ record.status = .failed ∧ record.isDeadLetter = false ∧
      record.deadReason = none ∧ ¬ KnowsWhy (served (.dead .explicit)) state := by
  have stored : (run (step 1) { wal := .inProcess .empty } (served (.dead .explicit))).bind
      (fun state => state.wal.records.lookup "m") = some { WalRecord.fromMsg order with recordId := 1, status := .failed } := by
    decide +kernel
  obtain ⟨state, ran, found⟩ := bind_eq_some_iff.mp stored
  refine ⟨state, _, ran, found, rfl, rfl, rfl, fun knows => ?_⟩
  exact absurd ((knows.marked "m" _ found).mp rfl) (by decide)

end EventBase.Proofs.DeathReasons
