import EventBase.Proofs.DelayScores
import EventBase.RedisDelays

/-! The persistent and the Redis WAL answer alike. Their stores are related, and every call
keeps the relation. -/

namespace EventBase.Proofs.WalInterchange
open Foundations DelayScores List AList

/-- Whole milliseconds between the epoch and the last integer a sorted-set score holds exactly. -/
def WholeMillis (time : Int) : Prop := 0 ≤ time ∧ time ≤ 2 ^ 53 * 1000000 ∧ time % 1000000 = 0

instance (time : Int) : Decidable (WholeMillis time) := inferInstanceAs (Decidable (_ ∧ _ ∧ _))

def timestamps : WalCall → List SystemTime
  | .change (.schedule record) => record.message.deliverAt.toList
  | .change (.fetchReady now) => [now]
  | _ => []

/-- Equal replies, where the order of a list of records carries no meaning. -/
inductive SameReply : WalReply → WalReply → Prop
  | equal (reply : WalReply) : SameReply reply reply
  | permuted {first second : List WalRecord} (order : first.Perm second) : SameReply (.records first) (.records second)

structure Mirrors (file : WalStore) (redis : RedisWal) : Prop where
  records : redis.records = file.records
  delays : ∀ id, redis.delays.lookup id = file.delays.lookup id
  index : ∀ id, redis.delayIndex.lookup id = (file.delays.lookup id).map (fun record => score (deliverAtMillis record))
  registry : redis.loadWorkerRegistry = file.workerRegistry
  counter : redis.idCounter = file.idCounter
  whole : ∀ id record deadline, file.delays.lookup id = some record → record.message.deliverAt = some deadline →
    WholeMillis deadline

theorem Mirrors.empty : Mirrors WalStore.empty RedisWal.empty where
  records := rfl
  delays _ := rfl
  index _ := rfl
  registry := rfl
  counter := rfl
  whole _ _ _ found := by cases found

theorem score_of_whole {time : SystemTime} (whole : WholeMillis time) : score (asI64 (millis time)) = time / 1000000 := by
  obtain ⟨nonneg, bounded, _⟩ := whole
  rw [score_millis (millis_le_of_bounded nonneg bounded), millis_of_nonneg nonneg]

theorem whole_le_iff {deadline now} (whole : WholeMillis deadline) (clock : WholeMillis now) :
    deadline / 1000000 ≤ now / 1000000 ↔ deadline ≤ now := by
  obtain ⟨_, _, aligned⟩ := whole
  obtain ⟨_, _, ticked⟩ := clock
  omega

theorem score_of_whole_lt {now : SystemTime} (clock : WholeMillis now) : score (nowMillis now) < score (2 ^ 63 - 1) := by
  have last : score (2 ^ 63 - 1) = 2 ^ 63 := by decide +kernel
  rw [nowMillis, score_of_whole clock, last]
  obtain ⟨_, bounded, _⟩ := clock
  omega

theorem score_le_iff {record : WalRecord} {now : SystemTime}
    (whole : ∀ deadline, record.message.deliverAt = some deadline → WholeMillis deadline) (clock : WholeMillis now) :
    score (deliverAtMillis record) ≤ score (nowMillis now) ↔ record.due now = true := by
  simp only [deliverAtMillis, WalRecord.due]
  cases stamped : record.message.deliverAt with
  | some deadline =>
    simp only [nowMillis, score_of_whole (whole deadline stamped), score_of_whole clock, decide_eq_true_eq]
    exact whole_le_iff (whole deadline stamped) clock
  | none => simpa using score_of_whole_lt clock

theorem file_fetchReady (store : WalStore) (now : SystemTime) :
    store.fetchReady now =
      ((keysWhere store.delays (WalRecord.due now)).filterMap (fun id => store.delays.lookup id),
        { store with delays := (keysWhere store.delays (WalRecord.due now)).foldl (fun delays id => delays.erase id) store.delays }) := by
  simp only [WalStore.fetchReady, values_eq_filterMap store.delays (WalRecord.due now), keysWhere, foldl_map]

private theorem claimDue_present {ready store id} (indexed : id ∈ store.delayIndex) :
    RedisWal.claimDue (ready, store) id =
      (ready ++ (store.delays.lookup id).toList,
        { store with delayIndex := store.delayIndex.erase id, delays := store.delays.erase id }) := if_pos indexed

theorem foldl_claimDue {ids : List String} (distinct : ids.Nodup) (ready : List WalRecord) (store : RedisWal)
    (indexed : ∀ id ∈ ids, id ∈ store.delayIndex) :
    ids.foldl RedisWal.claimDue (ready, store) =
      (ready ++ ids.filterMap (fun id => store.delays.lookup id),
        { store with
          delayIndex := ids.foldl (fun index id => index.erase id) store.delayIndex
          delays := ids.foldl (fun delays id => delays.erase id) store.delays }) := by
  induction ids generalizing ready store with
  | nil => simp
  | cons id rest ih =>
    obtain ⟨absent, distinct⟩ := nodup_cons.mp distinct
    have other : ∀ later ∈ rest, later ≠ id := fun later member same => absent (same ▸ member)
    rw [foldl_cons, claimDue_present (indexed id mem_cons_self), ih distinct]
    · have unchanged : rest.filterMap (fun later => (store.delays.erase id).lookup later) =
          rest.filterMap (fun later => store.delays.lookup later) :=
        filterMap_congr fun later member => lookup_erase_ne (other later member)
      cases found : store.delays.lookup id <;> simp [unchanged, found]
    · intro later member
      exact mem_erase.mpr ⟨other later member, indexed later (mem_cons_of_mem _ member)⟩

theorem redis_fetchReady (store : RedisWal) (now : SystemTime) :
    store.fetchReady now =
      ((store.dueIds now).filterMap (fun id => store.delays.lookup id),
        { store with
          delayIndex := (store.dueIds now).foldl (fun index id => index.erase id) store.delayIndex
          delays := (store.dueIds now).foldl (fun delays id => delays.erase id) store.delays }) := by
  have indexed : ∀ id ∈ store.dueIds now, id ∈ store.delayIndex := by
    intro id member
    obtain ⟨score, found, _⟩ := mem_keysWhere.mp member
    exact lookup_isSome.mp (by rw [found]; rfl)
  have looped := foldl_claimDue (nodup_keysWhere _ _) [] store indexed
  rw [nil_append] at looped
  exact looped

section
variable {file : WalStore} {redis : RedisWal} (mirrors : Mirrors file redis)
include mirrors

theorem Mirrors.due_iff {now : SystemTime} (clock : WholeMillis now) (id : String) :
    id ∈ redis.dueIds now ↔ id ∈ keysWhere file.delays (WalRecord.due now) := by
  rw [RedisWal.dueIds, mem_keysWhere, mem_keysWhere, mirrors.index id]
  cases found : file.delays.lookup id with
  | none => simp
  | some record => simp [score_le_iff (fun deadline => mirrors.whole id record deadline found) clock]

theorem Mirrors.fetchReady {now : SystemTime} (clock : WholeMillis now) :
    (file.fetchReady now).1.Perm (redis.fetchReady now).1 ∧ Mirrors (file.fetchReady now).2 (redis.fetchReady now).2 := by
  have due := mirrors.due_iff clock
  rw [file_fetchReady, redis_fetchReady]
  refine ⟨?_, mirrors.records, ?_, ?_, mirrors.registry, mirrors.counter, ?_⟩
  · have order := (perm_ext_iff_of_nodup (nodup_keysWhere _ _) (nodup_keysWhere _ _)).mpr fun id => (due id).symm
    simp only [mirrors.delays]
    exact order.filterMap _
  · intro id
    simp only [lookup_foldl_erase, due, mirrors.delays]
  · intro id
    simp only [lookup_foldl_erase, due, mirrors.index]
    split <;> rfl
  · intro id record deadline found stamped
    simp only [lookup_foldl_erase] at found
    split at found
    · cases found
    · exact mirrors.whole id record deadline found stamped

theorem Mirrors.schedule {record : WalRecord} (whole : ∀ deadline, record.message.deliverAt = some deadline → WholeMillis deadline) :
    Mirrors (file.schedule record) (redis.schedule record) := by
  refine ⟨mirrors.records, ?_, ?_, mirrors.registry, congrArg (· + 1) mirrors.counter, ?_⟩
  · intro id
    simp only [WalStore.schedule, RedisWal.schedule, mirrors.counter]
    by_cases same : id = record.message.id
    · subst same
      simp
    · simp only [lookup_insert_ne same, mirrors.delays]
  · intro id
    simp only [WalStore.schedule, RedisWal.schedule]
    by_cases same : id = record.message.id
    · subst same
      simp [deliverAtMillis]
    · simp only [lookup_insert_ne same, mirrors.index]
  · intro id stored deadline found stamped
    simp only [WalStore.schedule] at found
    by_cases same : id = record.message.id
    · subst same
      rw [lookup_insert] at found
      cases found
      exact whole deadline stamped
    · rw [lookup_insert_ne same] at found
      exact mirrors.whole id stored deadline found stamped

theorem Mirrors.removeScheduled (messageId : String) :
    Mirrors (file.removeScheduled messageId) (redis.removeScheduled messageId) := by
  have erased : ∀ {β : Type} (table : Table β) (id : String),
      (table.erase messageId).lookup id = if id = messageId then none else table.lookup id := by
    intro β table id
    split
    · next same => rw [same, lookup_erase]
    · next other => exact lookup_erase_ne other
  refine ⟨mirrors.records, ?_, ?_, mirrors.registry, mirrors.counter, ?_⟩
  · intro id
    simp only [WalStore.removeScheduled, RedisWal.removeScheduled, erased, mirrors.delays]
  · intro id
    simp only [WalStore.removeScheduled, RedisWal.removeScheduled, erased, mirrors.index]
    split <;> rfl
  · intro id record deadline found stamped
    simp only [WalStore.removeScheduled, erased] at found
    split at found
    · cases found
    · exact mirrors.whole id record deadline found stamped

theorem Mirrors.setRecords (records : Table WalRecord) (counter : Nat) :
    Mirrors { file with records := records, idCounter := counter } { redis with records := records, idCounter := counter } :=
  ⟨rfl, mirrors.delays, mirrors.index, mirrors.registry, rfl, mirrors.whole⟩

theorem Mirrors.replayPending : file.replayPending.Perm redis.replayPending := by
  rw [WalStore.replayPending, RedisWal.replayPending, mirrors.records]
  exact (mergeSort_perm _ _).symm

theorem Mirrors.updateState (messageId : String) (status : WalRecordState) :
    SameReply (PersistentWal.call file (.change (.updateState messageId status))).1
      (redis.call (.change (.updateState messageId status))).1 ∧
    Mirrors (PersistentWal.call file (.change (.updateState messageId status))).2
      (redis.call (.change (.updateState messageId status))).2 := by
  simp only [PersistentWal.call, PersistentWal.updateState, RedisWal.call, RedisWal.updateState, mirrors.records]
  cases file.records.lookup messageId with
  | none => exact ⟨.equal _, mirrors⟩
  | some record =>
    refine ⟨.equal _, ?_⟩
    exact ⟨rfl, mirrors.delays, mirrors.index, mirrors.registry, mirrors.counter, mirrors.whole⟩

theorem Mirrors.append (record : WalRecord) : Mirrors (file.append record) (redis.append record) := by
  rw [WalStore.append, RedisWal.append, mirrors.records, mirrors.counter]
  exact mirrors.setRecords _ _

theorem Mirrors.call {call} (whole : ∀ time ∈ timestamps call, WholeMillis time) :
    SameReply (PersistentWal.call file call).1 (redis.call call).1 ∧
      Mirrors (PersistentWal.call file call).2 (redis.call call).2 := by
  cases call with
  | replayPending => exact ⟨.permuted mirrors.replayPending, mirrors⟩
  | loadWorkerRegistry =>
    refine ⟨?_, mirrors⟩
    have same : SameReply (.registry file.workerRegistry) (.registry redis.loadWorkerRegistry) := by
      rw [mirrors.registry]
      exact .equal _
    exact same
  | change op =>
    cases op with
    | append record => exact ⟨.equal _, mirrors.append record⟩
    | updateState messageId status => exact mirrors.updateState messageId status
    | schedule record =>
      refine ⟨.equal _, mirrors.schedule fun deadline stamped => ?_⟩
      exact whole deadline (by rw [timestamps, stamped]; exact mem_singleton_self _)
    | fetchReady now =>
      obtain ⟨order, kept⟩ := mirrors.fetchReady (whole now (mem_singleton_self _))
      exact ⟨.permuted order, kept⟩
    | removeScheduled messageId => exact ⟨.equal _, mirrors.removeScheduled messageId⟩
    | saveWorkerRegistry registry =>
      exact ⟨.equal _, mirrors.records, mirrors.delays, mirrors.index, rfl, mirrors.counter, mirrors.whole⟩

end

/-- Any sequence of calls from empty stores gets the same replies from both backends. -/
theorem persistent_redis_interchangeable (calls : List WalCall)
    (whole : ∀ call ∈ calls, ∀ time ∈ timestamps call, WholeMillis time) :
    List.Forall₂ SameReply (replies PersistentWal.call WalStore.empty calls)
      (replies RedisWal.call RedisWal.empty calls) := by
  refine replies_related Mirrors SameReply ?_ Mirrors.empty whole
  intro file redis call mirrors whole
  exact mirrors.call whole

private def due : WalRecord :=
  WalRecord.fromMsg { EMessage.new "m" 0 "t" [] .standard none with deliverAt := some 5000000 }

theorem interchangeable_after_reschedule :
    List.Forall₂ SameReply
      (replies PersistentWal.call WalStore.empty
        [.change (.schedule due), .change (.schedule due), .change (.fetchReady 7000000), .change (.updateState "m" .complete)])
      (replies RedisWal.call RedisWal.empty
        [.change (.schedule due), .change (.schedule due), .change (.fetchReady 7000000), .change (.updateState "m" .complete)]) :=
  persistent_redis_interchangeable _ (by decide)

end EventBase.Proofs.WalInterchange
