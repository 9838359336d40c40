import EventBase.WalLocks

/-! Which calls on clones of one in-process WAL can wait for each other. `append` and
`schedule` number a record before they take the map it goes into; the memory backend's
`update_state` on an unknown id and the persistent backend's `flush` take the counter
after the maps. -/

namespace EventBase.Proofs.WalDeadlock
open Foundations NestedLocks WalMethod List AList WalSystem
open FairLock (Mode Lock)

def Clash : WalBackend → WalStore → List WalMethod → Prop
  | .memory, store, methods =>
    (∃ record, .append record ∈ methods) ∧
      ∃ messageId status placeholder, .updateState messageId status placeholder ∈ methods ∧ messageId ∉ store.records
  | .persistent, _, methods => .flush ∈ methods ∧ ∃ record, .append record ∈ methods ∨ .schedule record ∈ methods

/-- Alone, each call does what the sequential model says. -/
theorem effect_code (backend : WalBackend) (method : WalMethod) (store : WalStore) :
    (method.code backend).effect store = method.alone backend store := by
  cases method with
  | updateState messageId status placeholder =>
    cases backend with
    | memory =>
      simp only [code, updateStateCode, alone, WalBackend.updateState, Code.effect, WalStore.setStatus,
        MemoryWal.updateState]
      cases found : store.records.lookup messageId with
      | some record =>
        rw [if_pos (lookup_isSome.mp (by rw [found]; rfl))]
        rfl
      | none =>
        rw [if_neg (lookup_eq_none.mp found)]
        rfl
    | persistent =>
      simp only [code, updateStateCode, alone, WalBackend.updateState, Code.guard, Code.effect, WalStore.setStatus,
        PersistentWal.apply, PersistentWal.updateState]
      cases store.records.lookup messageId <;> rfl
  | flush => cases backend <;> rfl
  | append | schedule | replayPending | fetchReady | removeScheduled | saveWorkerRegistry | loadWorkerRegistry => rfl

def counterFirst : WalLock → Nat
  | .idCounter => 0
  | .records | .delays | .workerRegistry => 1

def recordsFirst : WalLock → Nat
  | .records | .workerRegistry => 0
  | .idCounter => 1
  | .delays => 2

def counterLast : WalLock → Nat
  | .records => 0
  | .delays => 1
  | .workerRegistry => 2
  | .idCounter => 3

def knowing (store : WalStore) : Discipline WalLock WalStore where
  rank := counterFirst
  good current := ∀ messageId ∈ store.records, messageId ∈ current.records

theorem mem_setStatus {messageId other status} {store : WalStore} (known : other ∈ store.records) :
    other ∈ (store.setStatus messageId status).records := by
  unfold WalStore.setStatus
  split
  · exact (mem_insert _).mpr (.inr known)
  · exact known

theorem obeys_knowing {store : WalStore} {method : WalMethod}
    (known : ∀ messageId status placeholder, method = .updateState messageId status placeholder → messageId ∈ store.records) :
    (method.code .memory).Obeys (knowing store) [] := by
  cases method with
  | append record =>
    refine ⟨by simp [knowing], fun data good => ⟨good, by simp [knowing, counterFirst], fun data good => ⟨?_, trivial⟩⟩⟩
    exact fun messageId before => (mem_insert _).mpr (.inr (good messageId before))
  | schedule record =>
    exact ⟨by simp [knowing], fun data good => ⟨good, by simp [knowing, counterFirst], fun data good => ⟨good, trivial⟩⟩⟩
  | updateState messageId status placeholder =>
    refine ⟨by simp [knowing], fun data good => ⟨fun other before => mem_setStatus (good other before), ?_⟩⟩
    have found := good messageId (known messageId status placeholder rfl)
    simp only [if_pos found]
    trivial
  | flush => trivial
  | replayPending | fetchReady | removeScheduled | saveWorkerRegistry | loadWorkerRegistry =>
    exact ⟨by simp [knowing], fun data good => ⟨good, trivial⟩⟩

theorem ascends_recordsFirst {method : WalMethod} (other : ∀ record, method ≠ .append record) :
    (method.code .memory).Ascends recordsFirst [] := by
  cases method with
  | append record => exact absurd rfl (other record)
  | schedule record => exact ⟨by simp, fun _ => ⟨by decide, fun _ => trivial⟩⟩
  | updateState messageId status placeholder =>
    refine ⟨by simp, fun store => ?_⟩
    simp only
    split
    · trivial
    · exact ⟨by decide, fun _ => trivial⟩
  | flush => trivial
  | replayPending | fetchReady | removeScheduled | saveWorkerRegistry | loadWorkerRegistry =>
    exact ⟨by simp, fun _ => trivial⟩

theorem ascends_counterFirst {method : WalMethod} (other : method ≠ .flush) :
    (method.code .persistent).Ascends counterFirst [] := by
  cases method with
  | flush => exact absurd rfl other
  | append record => exact ⟨by simp, fun _ => ⟨by decide, fun _ => trivial⟩⟩
  | schedule record => exact ⟨by simp, fun _ => ⟨by decide, fun _ => trivial⟩⟩
  | updateState | replayPending | fetchReady | removeScheduled | saveWorkerRegistry | loadWorkerRegistry =>
    exact ⟨by simp, fun _ => trivial⟩

theorem ascends_counterLast {method : WalMethod} (other : ∀ record, method ≠ .append record ∧ method ≠ .schedule record) :
    (method.code .persistent).Ascends counterLast [] := by
  cases method with
  | append record => exact absurd rfl (other record).1
  | schedule record => exact absurd rfl (other record).2
  | flush => exact ⟨by simp, fun _ => ⟨by decide, fun _ => ⟨by decide, fun _ => ⟨by decide, fun _ => trivial⟩⟩⟩⟩
  | updateState | replayPending | fetchReady | removeScheduled | saveWorkerRegistry | loadWorkerRegistry =>
    exact ⟨by simp, fun _ => trivial⟩

section
variable {store : WalStore} {methods : List WalMethod} {turns : List Nat} {system : WalSystem}

theorem memory_never_deadlocked (peace : ¬ Clash .memory store methods)
    (ran : run System.step (start .memory store methods) turns = some system) (tasks : Finset Nat) :
    ¬ system.Deadlocked tasks := by
  by_cases appends : ∃ record, WalMethod.append record ∈ methods
  · intro deadlocked
    refine @disciplined_never_stalled _ _ _ system (knowing store) store _ turns (fun _ => id) ?_ ran tasks deadlocked.stalled
    intro code member
    obtain ⟨method, present, rfl⟩ := mem_map.mp member
    refine obeys_knowing fun messageId status placeholder same => ?_
    by_contra unknown
    exact peace ⟨appends, messageId, status, placeholder, same ▸ present, unknown⟩
  · refine @ascending_never_deadlocked _ _ _ system recordsFirst store _ turns ?_ ran tasks
    intro code member
    obtain ⟨method, present, rfl⟩ := mem_map.mp member
    exact ascends_recordsFirst fun record same => appends ⟨record, same ▸ present⟩

theorem persistent_never_deadlocked (peace : ¬ Clash .persistent store methods)
    (ran : run System.step (start .persistent store methods) turns = some system) (tasks : Finset Nat) :
    ¬ system.Deadlocked tasks := by
  by_cases flushes : WalMethod.flush ∈ methods
  · refine @ascending_never_deadlocked _ _ _ system counterLast store _ turns ?_ ran tasks
    intro code member
    obtain ⟨method, present, rfl⟩ := mem_map.mp member
    refine ascends_counterLast fun record => ⟨?_, ?_⟩
    · exact fun same => peace ⟨flushes, record, .inl (same ▸ present)⟩
    · exact fun same => peace ⟨flushes, record, .inr (same ▸ present)⟩
  · refine @ascending_never_deadlocked _ _ _ system counterFirst store _ turns ?_ ran tasks
    intro code member
    obtain ⟨method, present, rfl⟩ := mem_map.mp member
    exact ascends_counterFirst fun same => flushes (same ▸ present)

end

theorem numbering_crossed {system : WalSystem} {numberer other : Nat} {lock : WalLock} {mode second : Mode}
    {update put change : WalStore → WalStore} {rest inside : WalStore → WalCode} (different : numberer ≠ other)
    (apart : lock ≠ .idCounter)
    (numbers : system.codes[numberer]? = some (.acquire .idCounter .write update fun _ => .acquire lock .write put rest))
    (crosses : system.codes[other]? = some (.acquire .idCounter mode change inside))
    (free : system.locks .idCounter = {}) (taken : system.locks lock = { holders := [(other, second)] }) :
    ∃ final, run System.step system [numberer, numberer, other] = some final ∧ final.Deadlocked {numberer, other} := by
  have bound : numberer < system.codes.length := (List.getElem?_eq_some_iff.mp numbers).1
  obtain ⟨counted, took, _, codes, locks⟩ := take_free numbers free
  obtain ⟨final, waited, deadlocked⟩ := @crossed _ _ _ counted numberer other lock .idCounter mode second put change rest
    inside different apart (codes ▸ getElem?_set_self bound)
    (by rw [codes, getElem?_set_ne different, crosses]) (by rw [locks, Function.update_of_ne apart, taken])
    (by rw [locks, Function.update_self])
  refine ⟨final, ?_, deadlocked⟩
  rw [run, took]
  exact waited

/-- The call numbers a record and then puts it under `lock`. -/
def Numbers (lock : WalLock) (code : WalCode) : Prop :=
  ∃ put rest, code = .acquire .idCounter .write WalStore.countUp fun _ => .acquire lock .write put rest

theorem append_numbers (record : WalRecord) : Numbers .records (appendCode record) := ⟨_, _, rfl⟩

theorem schedule_numbers (record : WalRecord) : Numbers .delays (scheduleCode record) := ⟨_, _, rfl⟩

section
variable {store : WalStore} {methods : List WalMethod} {numberer other : Nat}

theorem start_code {backend} {index : Nat} {method} (found : methods[index]? = some method) :
    (start backend store methods).codes[index]? = some (method.code backend) := by
  simp only [start, getElem?_map, found, Option.map_some]

theorem memory_deadlocks {record messageId status placeholder} (appends : methods[numberer]? = some (.append record))
    (updates : methods[other]? = some (.updateState messageId status placeholder))
    (unknown : messageId ∉ store.records) :
    ∃ system, run System.step (start .memory store methods) [other, numberer, numberer, other] = some system ∧
      system.Deadlocked {numberer, other} := by
  have different : numberer ≠ other := by
    rintro rfl
    cases appends.symm.trans updates
  have bound : other < (start .memory store methods).codes.length :=
    (List.getElem?_eq_some_iff.mp (start_code updates)).1
  have starts : (start .memory store methods).codes[other]? =
      some (updateStateCode messageId status placeholder .memory) := start_code updates
  obtain ⟨taken, took, _, codes, locks⟩ := take_free starts rfl
  rw [if_neg (show messageId ∉ (start .memory store methods).data.records from unknown)] at codes
  obtain ⟨put, rest, numbers⟩ := append_numbers record
  obtain ⟨final, waited, deadlocked⟩ := @numbering_crossed taken numberer other .records .write .write _ put _ rest _ different
    (by decide) (by rw [codes, getElem?_set_ne different.symm, start_code appends, ← numbers]; rfl)
    (codes ▸ getElem?_set_self bound) (by rw [locks]; rfl) (by rw [locks, Function.update_self])
  refine ⟨final, ?_, deadlocked⟩
  rw [run, took]
  exact waited

theorem flush_reads (flushes : methods[other]? = some .flush) :
    ∃ next change inside, run System.step (start .persistent store methods) [other, other, other] = some next ∧
      next.codes = (start .persistent store methods).codes.set other (.acquire .idCounter .write change inside) ∧
      next.locks .idCounter = {} ∧ next.locks .records = { holders := [(other, .read)] } ∧
      next.locks .delays = { holders := [(other, .read)] } := by
  have bound : other < (start .persistent store methods).codes.length :=
    (List.getElem?_eq_some_iff.mp (start_code flushes)).1
  have free : (start .persistent store methods).locks = fun _ => {} := rfl
  obtain ⟨first, tookRecords, _, firstCodes, firstLocks⟩ := take_free (start_code flushes) (by rw [free])
  have atDelays := firstCodes ▸ getElem?_set_self bound
  obtain ⟨second, tookDelays, _, secondCodes, secondLocks⟩ := take_free atDelays (by rw [firstLocks]; rfl)
  rw [firstCodes, set_set] at secondCodes
  have atRegistry := secondCodes ▸ getElem?_set_self bound
  obtain ⟨third, tookRegistry, _, thirdCodes, thirdLocks⟩ := take_free atRegistry (by rw [secondLocks, firstLocks]; rfl)
  rw [secondCodes, set_set] at thirdCodes
  refine ⟨third, id, _, ?_, thirdCodes, ?_, ?_, ?_⟩
  · simp only [run, tookRecords, tookDelays, tookRegistry, Option.bind_some]
  all_goals
    rw [thirdLocks, secondLocks, firstLocks]
    rfl

theorem persistent_deadlocks {method lock} (mapped : lock = .records ∨ lock = .delays)
    (found : methods[numberer]? = some method) (numbers : Numbers lock (method.code .persistent))
    (flushes : methods[other]? = some .flush) :
    ∃ turns system, run System.step (start .persistent store methods) turns = some system ∧
      system.Deadlocked {numberer, other} := by
  have different : numberer ≠ other := by
    rintro rfl
    cases found.symm.trans flushes
    obtain ⟨_, _, same⟩ := numbers
    cases same
  have bound : other < (start .persistent store methods).codes.length :=
    (List.getElem?_eq_some_iff.mp (start_code flushes)).1
  obtain ⟨reached, change, inside, read, codes, free, records, delays⟩ := @flush_reads store methods other flushes
  have taken : reached.locks lock = { holders := [(other, .read)] } := by
    obtain rfl | rfl := mapped
    · exact records
    · exact delays
  obtain ⟨put, rest, same⟩ := numbers
  obtain ⟨final, waited, deadlocked⟩ := @numbering_crossed reached numberer other lock .write .read _ put change rest inside
    different (by obtain rfl | rfl := mapped <;> decide)
    (by rw [codes, getElem?_set_ne different.symm, start_code found, same])
    (codes ▸ getElem?_set_self bound) free taken
  refine ⟨[other, other, other] ++ [numberer, numberer, other], final, ?_, deadlocked⟩
  rw [run_append, read]
  exact waited

end

theorem clash_deadlocks {backend store methods} (clash : Clash backend store methods) :
    ∃ turns system tasks, run System.step (start backend store methods) turns = some system ∧
      system.Deadlocked tasks := by
  cases backend with
  | memory =>
    obtain ⟨⟨record, appending⟩, messageId, status, placeholder, updating, unknown⟩ := clash
    obtain ⟨numberer, appends⟩ := getElem?_of_mem appending
    obtain ⟨other, updates⟩ := getElem?_of_mem updating
    obtain ⟨system, ran, deadlocked⟩ := memory_deadlocks appends updates unknown
    exact ⟨_, system, _, ran, deadlocked⟩
  | persistent =>
    obtain ⟨flushing, record, appending | scheduling⟩ := clash
    · obtain ⟨other, flushes⟩ := getElem?_of_mem flushing
      obtain ⟨numberer, appends⟩ := getElem?_of_mem appending
      obtain ⟨turns, system, ran, deadlocked⟩ := persistent_deadlocks (.inl rfl) appends (append_numbers record) flushes
      exact ⟨turns, system, _, ran, deadlocked⟩
    · obtain ⟨other, flushes⟩ := getElem?_of_mem flushing
      obtain ⟨numberer, schedules⟩ := getElem?_of_mem scheduling
      obtain ⟨turns, system, ran, deadlocked⟩ := persistent_deadlocks (.inr rfl) schedules (schedule_numbers record) flushes
      exact ⟨turns, system, _, ran, deadlocked⟩

/-- Concurrent calls on clones of one WAL are free of deadlock exactly when, on the memory
backend, no `append` meets an `update_state` of an unknown id and, on the persistent one, no
`flush` meets an `append` or a `schedule`. -/
theorem clones_deadlock_free_iff (backend : WalBackend) (store : WalStore) (methods : List WalMethod) :
    (∀ turns system, run System.step (WalSystem.start backend store methods) turns = some system →
      ∀ tasks, ¬ system.Deadlocked tasks) ↔ ¬ Clash backend store methods := by
  constructor
  · intro safe clash
    obtain ⟨turns, system, tasks, ran, deadlocked⟩ := clash_deadlocks clash
    exact safe turns system ran tasks deadlocked
  · intro peace turns system ran tasks
    cases backend with
    | memory => exact memory_never_deadlocked peace ran tasks
    | persistent => exact persistent_never_deadlocked peace ran tasks

private def invoiceRecord : WalRecord := WalRecord.fromMsg (EMessage.new "invoice" 0 "billing" [] .standard none)

/-- An invoice is appended while the WAL is flushed: each call waits for the other. -/
theorem flush_meets_append :
    ∃ turns system, run System.step (WalSystem.start .persistent .empty [.append invoiceRecord, .flush]) turns = some system ∧
      system.Deadlocked {0, 1} :=
  persistent_deadlocks (.inl rfl) rfl (append_numbers invoiceRecord) rfl

end EventBase.Proofs.WalDeadlock
