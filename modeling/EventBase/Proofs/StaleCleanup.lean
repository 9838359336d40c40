import EventBase.Foundations.AssocList
import EventBase.WorkerRegistry

/-! Which workers `cleanup_stale` evicts. A heartbeat from the future, as after a clock
step or from a node whose clock is ahead, counts as infinitely old. -/

namespace EventBase.Proofs.StaleCleanup
open Foundations WorkerRegistry

def Overdue (now : SystemTime) (timeout : Duration) (info : WorkerInfo) : Prop := info.lastHeartbeat + timeout < now

/-- `cleanup_stale` with nothing else running. -/
def cleanup (now : SystemTime) (timeout : Duration) : List WorkerRegistry.Event :=
  .begin (.cleanupStale now timeout) :: List.replicate 5 (.advance 0 now none)

/-- The call has removed and returned the overdue workers, each once, and saved the
others as they were. -/
structure Exact (workers : Table WorkerInfo) (now : SystemTime) (timeout : Duration) (removed : List String)
    (system : WorkerRegistry.System) : Prop where
  once : removed.Nodup
  overdue : ∀ workerId, workerId ∈ removed ↔ ∃ info, workers.lookup workerId = some info ∧ Overdue now timeout info
  remaining : ∀ workerId, system.value.lookup workerId = if workerId ∈ removed then none else workers.lookup workerId
  saved : system.store.loadWorkerRegistry = system.value
  recent : ∀ workerId info, workers.lookup workerId = some info → now - timeout < info.lastHeartbeat →
    system.value.lookup workerId = some info

section
variable {workers : Table WorkerInfo} {now : SystemTime} {timeout : Duration}

theorem stale_eq : stale workers now timeout = keysWhere workers fun info => timeout < elapsed now info := rfl

theorem mem_stale {workerId : String} : workerId ∈ stale workers now timeout ↔
    ∃ info, workers.lookup workerId = some info ∧ timeout < elapsed now info := by
  rw [stale_eq, mem_keysWhere]
  simp only [decide_eq_true_eq]

private theorem lt_toNat_sub (later earlier : Int) (span : Nat) : span < (later - earlier).toNat ↔ earlier + span < later := by
  omega

private theorem not_add_lt {later earlier : Int} (future : ¬ earlier ≤ later) (span : Nat) : ¬ earlier + span < later := by
  omega

theorem elapsed_past {info : WorkerInfo} (past : info.lastHeartbeat ≤ now) :
    timeout < elapsed now info ↔ Overdue now timeout info := by
  simp only [elapsed, durationSince, if_pos past, Overdue]
  exact lt_toNat_sub now info.lastHeartbeat timeout

theorem elapsed_future {info : WorkerInfo} (future : ¬ info.lastHeartbeat ≤ now) : elapsed now info = Duration.max := by
  simp only [elapsed, durationSince, if_neg future]

theorem not_overdue {info : WorkerInfo} (future : ¬ info.lastHeartbeat ≤ now) : ¬ Overdue now timeout info :=
  not_add_lt future timeout

/-- No heartbeat is later than the clock, unless no heartbeat is ever too old. -/
def Timely (workers : Table WorkerInfo) (now : SystemTime) (timeout : Duration) : Prop :=
  Duration.max ≤ timeout ∨ ∀ workerId info, workers.lookup workerId = some info → info.lastHeartbeat ≤ now

theorem stale_overdue (timely : Timely workers now timeout) (workerId : String) : workerId ∈ stale workers now timeout ↔
    ∃ info, workers.lookup workerId = some info ∧ Overdue now timeout info := by
  rw [mem_stale]
  apply exists_congr
  intro info
  apply and_congr_right
  intro found
  by_cases past : info.lastHeartbeat ≤ now
  · exact elapsed_past past
  · have unlimited : Duration.max ≤ timeout := timely.resolve_right fun known => past (known workerId info found)
    rw [elapsed_future past]
    exact iff_of_false (Nat.not_lt.mpr unlimited) (not_overdue past)

theorem timely_of_overdue (exact_ : ∀ workerId, workerId ∈ stale workers now timeout →
    ∃ info, workers.lookup workerId = some info ∧ Overdue now timeout info) : Timely workers now timeout := by
  by_cases unlimited : Duration.max ≤ timeout
  · exact .inl unlimited
  · refine .inr fun workerId info found => ?_
    by_contra future
    have evicted : workerId ∈ stale workers now timeout := by
      rw [mem_stale]
      exact ⟨info, found, by rw [elapsed_future future]; exact Nat.not_le.mp unlimited⟩
    obtain ⟨other, same, overdue⟩ := exact_ workerId evicted
    cases found.symm.trans same
    exact not_overdue future overdue

theorem lookup_cleanupStale (workerId : String) : (cleanupStale workers now timeout).lookup workerId =
    if workerId ∈ stale workers now timeout then none else workers.lookup workerId :=
  lookup_foldl_erase _ workers workerId

end

theorem exact_of_timely {workers : Table WorkerInfo} {now : SystemTime} {timeout : Duration} {system : WorkerRegistry.System}
    (timely : Timely workers now timeout) (value : system.value = cleanupStale workers now timeout)
    (saved : system.store.loadWorkerRegistry = system.value) : Exact workers now timeout (stale workers now timeout) system where
  once := by
    rw [stale_eq]
    exact nodup_keysWhere workers _
  overdue := stale_overdue timely
  remaining workerId := by rw [value, lookup_cleanupStale]
  saved := saved
  recent workerId info found recent := by
    rw [value, lookup_cleanupStale, if_neg, found]
    intro evicted
    obtain ⟨other, same, overdue⟩ := (stale_overdue timely workerId).mp evicted
    cases found.symm.trans same
    exact Int.lt_asymm overdue (Int.sub_lt_iff.mp recent)

theorem cleanup_runs (wal : RegistryWal) (now : SystemTime) (timeout : Duration) : ∃ system,
    run WorkerRegistry.step (WorkerRegistry.init wal) (cleanup now timeout) = some system ∧
      system.phases = [.returned (.ok (.removed (stale wal.loadWorkerRegistry now timeout)))] ∧
      system.value = cleanupStale wal.loadWorkerRegistry now timeout ∧ system.store.loadWorkerRegistry = system.value :=
  ⟨_, rfl, rfl, rfl, RegistryWal.load_save wal _⟩

/-- For every registry, clock and timeout: the call returns, and it has evicted exactly
the workers that are overdue if and only if no heartbeat was from the future. -/
theorem cleanup_exact_iff (wal : RegistryWal) (now : SystemTime) (timeout : Duration) : ∃ system removed,
    run WorkerRegistry.step (WorkerRegistry.init wal) (cleanup now timeout) = some system ∧
      system.phases = [.returned (.ok (.removed removed))] ∧
      (Exact wal.loadWorkerRegistry now timeout removed system ↔ Timely wal.loadWorkerRegistry now timeout) := by
  obtain ⟨system, ran, returned, value, saved⟩ := cleanup_runs wal now timeout
  refine ⟨system, _, ran, returned, ?_, ?_⟩
  · intro exact_
    apply timely_of_overdue
    intro workerId evicted
    exact (exact_.overdue workerId).mp evicted
  · intro timely
    exact exact_of_timely timely value saved

private def ahead : RegistryWal :=
  .inProcess { WalStore.empty with workerRegistry := (∅ : Table WorkerInfo).insert "w" ⟨"w", "orders", 11⟩ }

/-- The heartbeat is one nanosecond ahead of the clock, and the worker is evicted. -/
theorem early_heartbeat_evicted : ∃ system, run WorkerRegistry.step (WorkerRegistry.init ahead) (cleanup 10 300) = some system ∧
    system.phases = [.returned (.ok (.removed ["w"]))] ∧ system.value.lookup "w" = none ∧
      ahead.loadWorkerRegistry.lookup "w" = some ⟨"w", "orders", 11⟩ ∧
      ∀ removed, ¬ Exact ahead.loadWorkerRegistry 10 300 removed system := by
  have registered : ahead.loadWorkerRegistry.lookup "w" = some ⟨"w", "orders", 11⟩ := by decide +kernel
  have names : stale ahead.loadWorkerRegistry 10 300 = ["w"] := by decide +kernel
  obtain ⟨system, ran, returned, value, -⟩ := cleanup_runs ahead 10 300
  have evicted : system.value.lookup "w" = none := by
    rw [value, lookup_cleanupStale, names]
    rfl
  rw [names] at returned
  refine ⟨system, ran, returned, evicted, registered, fun removed exact_ => ?_⟩
  have kept := exact_.recent "w" _ registered (by decide)
  cases evicted.symm.trans kept

end EventBase.Proofs.StaleCleanup
