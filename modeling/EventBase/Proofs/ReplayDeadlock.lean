import EventBase.ReplayLocks

/-! When a replay and the calls that update the worker registry can wait for each other.
A writer that asks for the registry between the two read guards of a broadcast waits
for the first and is ahead of the second. -/

namespace EventBase.Proofs.ReplayDeadlock
open Foundations NestedLocks List Option RegistrySystem
open FairLock (Mode Lock)

section
variable (env : Env)

def fansOut : List WalRecord → Nat → Nat → Bool
  | [], _, _ => false
  | record :: rest, ticks, schedules =>
    let next := ticks + record.message.deliverAt.toList.length
    if inFuture env record.message ticks = true then
      if (env.schedules schedules).isSome then false else fansOut rest next (schedules + 1)
    else if record.message.deliveryMode = .broadcast ∧ env.nodeType ≠ .worker then true
    else fansOut rest next schedules

def Clash (topics : Option (List String)) (readable : Bool) (data : RegistryData) (calls : List (RegistryCall × SystemTime)) : Prop :=
  readable = true ∧ fansOut env (data.wal.replayPending.filter (replayable topics)) 0 0 = true ∧
    ∃ call ∈ calls, call.1.mode = .write

end

theorem replayPending_schedule (record : WalRecord) (store : DelayStore) :
    (store.schedule record).replayPending = store.replayPending := by
  cases store <;> rfl

theorem replayPending_saveWorkerRegistry (registry : Table WorkerInfo) (store : DelayStore) :
    (store.saveWorkerRegistry registry).replayPending = store.replayPending := by
  cases store <;> rfl

/-- Alone, a call changes the workers map and leaves a copy of it in the WAL. -/
theorem effect_call (call : RegistryCall) (clock : SystemTime) (data : RegistryData) :
    (call.code clock).effect data =
      ⟨(WorkerRegistry.apply call clock data.workers).1,
        data.wal.saveWorkerRegistry (WorkerRegistry.apply call clock data.workers).1⟩ := rfl

def registryRank : RegistryLock → Nat
  | .registry => 0
  | .workers => 1
  | .wal => 2

/-- The locks are taken in order, and the pending records stay as they are. -/
def ordered (pending : List WalRecord) : Discipline RegistryLock RegistryData where
  rank := registryRank
  good data := data.wal.replayPending = pending

def sharing : Discipline RegistryLock RegistryData where
  rank := registryRank
  shared lock := lock = .registry

theorem obeys_call (pending : List WalRecord) (call : RegistryCall) (clock : SystemTime) :
    (call.code clock).Obeys (ordered pending) [] := by
  refine ⟨by simp [ordered], fun data good => ⟨good, ?_⟩⟩
  refine ⟨by simp [ordered, registryRank], fun data good => ⟨good, ?_⟩⟩
  refine ⟨by simp [ordered, registryRank], fun data good => ⟨good, ?_⟩⟩
  refine ⟨by simp [ordered, registryRank], fun data good => ⟨?_, trivial⟩⟩
  exact (replayPending_saveWorkerRegistry data.workers data.wal).trans good

theorem obeys_cleanup {call : RegistryCall} (reads : call.mode = .read) (clock : SystemTime) :
    (call.code clock).Obeys sharing [] := by
  refine ⟨by simp [sharing, reads], fun data _ => ⟨trivial, ?_⟩⟩
  refine ⟨by simp [sharing], fun data _ => ⟨trivial, ?_⟩⟩
  refine ⟨by simp [sharing], fun data _ => ⟨trivial, ?_⟩⟩
  exact ⟨by simp [sharing, registryRank], fun data _ => ⟨trivial, trivial⟩⟩

theorem obeys_replayLoop {env pending records ticks schedules} (quiet : fansOut env records ticks schedules = false) :
    (replayLoop env records ticks schedules).Obeys (ordered pending) [.registry] := by
  induction records generalizing ticks schedules with
  | nil => trivial
  | cons record rest ih =>
    simp only [fansOut] at quiet
    simp only [replayLoop]
    split
    · next future =>
      rw [if_pos future] at quiet
      split
      · exact ⟨by simp [ordered, registryRank], fun data good => ⟨good, trivial⟩⟩
      · next accepted =>
        rw [if_neg accepted] at quiet
        refine ⟨by simp [ordered, registryRank], fun data good => ⟨?_, ih quiet⟩⟩
        exact (replayPending_schedule _ data.wal).trans good
    · next due =>
      rw [if_neg due] at quiet
      split at quiet
      · cases quiet
      · next single =>
        rw [sendCode, if_neg single]
        exact ih quiet

theorem shares_replayLoop (env : Env) (records : List WalRecord) (ticks schedules : Nat) :
    (replayLoop env records ticks schedules).Obeys sharing [.registry] := by
  induction records generalizing ticks schedules with
  | nil => trivial
  | cons record rest ih =>
    simp only [replayLoop]
    split
    · split
      · exact ⟨by simp [sharing], fun data _ => ⟨trivial, trivial⟩⟩
      · exact ⟨by simp [sharing], fun data _ => ⟨trivial, ih _ _⟩⟩
    · unfold sendCode
      split
      · refine ⟨by simp [sharing], fun data _ => ⟨trivial, ?_⟩⟩
        exact ⟨by simp [sharing], fun data _ => ⟨trivial, ih _ _⟩⟩
      · exact ih _ _

section
variable {env : Env} {topics : Option (List String)} {readable : Bool} {data : RegistryData}
  {calls : List (RegistryCall × SystemTime)} {turns : List Nat} {system : RegistrySystem}

theorem obeys_replay (quiet : readable = true → fansOut env (data.wal.replayPending.filter (replayable topics)) 0 0 = false) :
    (replayCode env topics readable).Obeys (ordered data.wal.replayPending) [] := by
  refine ⟨by simp [ordered], fun _ good => ⟨good, by simp [ordered, registryRank], fun found good => ⟨good, ?_⟩⟩⟩
  have same : found.wal.replayPending = data.wal.replayPending := good
  simp only [Code.Obeys, same]
  split
  · next read => exact obeys_replayLoop (quiet read)
  · trivial

theorem shares_replay : (replayCode env topics readable).Obeys sharing [] := by
  refine ⟨by simp [sharing], fun _ _ => ⟨trivial, by simp [sharing], fun found _ => ⟨trivial, ?_⟩⟩⟩
  simp only [Code.Obeys]
  split
  · exact shares_replayLoop env _ 0 0
  · trivial

theorem never_stalled (peace : ¬ Clash env topics readable data calls)
    (ran : run System.step (start env topics readable data calls) turns = some system) (tasks : Finset Nat) :
    ¬ system.Stalled tasks := by
  by_cases writers : ∃ call ∈ calls, call.1.mode = .write
  · refine @disciplined_never_stalled _ _ _ system (ordered data.wal.replayPending) data _ turns rfl ?_ ran tasks
    intro code member
    obtain rfl | member := mem_cons.mp member
    · refine obeys_replay fun read => ?_
      rw [← Bool.not_eq_true]
      exact fun broadcasts => peace ⟨read, broadcasts, writers⟩
    · obtain ⟨call, _, rfl⟩ := mem_map.mp member
      exact obeys_call _ call.1 call.2
  · refine @disciplined_never_stalled _ _ _ system sharing data _ turns trivial ?_ ran tasks
    intro code member
    obtain rfl | member := mem_cons.mp member
    · exact shares_replay
    · obtain ⟨call, present, rfl⟩ := mem_map.mp member
      refine obeys_cleanup ?_ call.2
      cases mode : call.1.mode with
      | read => rfl
      | write => exact absurd ⟨call, present, mode⟩ writers

end

def replaying : RegistryLock → Lock := Function.update (fun _ => {}) .registry { holders := [(0, .read)] }

theorem reaches_broadcast {env records ticks schedules system}
    (broadcasts : fansOut env records ticks schedules = true) (locks : system.locks = replaying)
    (found : system.codes[0]? = some (replayLoop env records ticks schedules)) :
    ∃ turns next inside, run System.step system turns = some next ∧ next.locks = replaying ∧
      next.codes = system.codes.set 0 (.acquire .registry .read id inside) := by
  have bound : 0 < system.codes.length := (List.getElem?_eq_some_iff.mp found).1
  induction records generalizing ticks schedules system with
  | nil => cases broadcasts
  | cons record rest ih =>
    simp only [fansOut] at broadcasts
    simp only [replayLoop] at found
    split at broadcasts
    · next future =>
      rw [if_pos future] at found
      split at broadcasts
      · cases broadcasts
      · next accepted =>
        rw [if_neg accepted] at found
        obtain ⟨after, passed, _, afterLocks, afterCodes⟩ := pass_section found (by rw [locks]; rfl)
        obtain ⟨turns, next, inside, ran, freed, codes⟩ := ih broadcasts (afterLocks.trans locks)
          (afterCodes ▸ getElem?_set_self bound) (by rw [afterCodes, length_set]; exact bound)
        refine ⟨[0, 0] ++ turns, next, inside, ?_, freed, ?_⟩
        · rw [run_append, passed]
          exact ran
        · rw [codes, afterCodes, set_set]
    · next due =>
      rw [if_neg due] at found
      split at broadcasts
      · next both =>
        rw [sendCode, if_pos both] at found
        obtain ⟨_, same⟩ := List.getElem?_eq_some_iff.mp found
        exact ⟨[], system, _, rfl, locks, by rw [← same, List.set_getElem_self]⟩
      · next single =>
        rw [sendCode, if_neg single] at found
        exact ih broadcasts locks found bound

theorem writer_between {system : RegistrySystem} {writer : Nat} {update change : RegistryData → RegistryData}
    {inside rest : RegistryData → RegistryCode} (other : writer ≠ 0) (locks : system.locks = replaying)
    (reads : system.codes[0]? = some (.acquire .registry .read update inside))
    (writes : system.codes[writer]? = some (.acquire .registry .write change rest)) :
    ∃ final, run System.step system [writer, 0] = some final ∧ final.Stalled {0, writer} := by
  have taken : system.locks .registry = { holders := [(0, .read)] } := by rw [locks]; rfl
  obtain ⟨queued, waited, codes, queue⟩ : ∃ queued, system.step writer = some queued ∧ queued.codes = system.codes ∧
      queued.locks .registry = { holders := [(0, .read)], waiting := [(writer, .write)] } :=
    ⟨_, step_blocked writes taken (.inl rfl), rfl, rfl⟩
  obtain ⟨final, blocked, same, both⟩ : ∃ final, queued.step 0 = some final ∧ final.codes = queued.codes ∧
      final.locks .registry = { holders := [(0, .read)], waiting := [(writer, .write), (0, .read)] } := by
    have refused : (queued.locks .registry).admits (0, .read) = false := by simp [queue, Lock.admits, other]
    have absent : (0, Mode.read) ∉ (queued.locks .registry).waiting := by simp [queue]
    refine ⟨queued.enqueue 0 .registry .read, ?_, rfl, ?_⟩
    · simp [System.step, codes, reads, refused, absent]
    · simp [System.enqueue, queue]
  refine ⟨final, by simp only [run, waited, blocked, bind_some], Finset.insert_nonempty _ _, fun task member => ?_⟩
  rcases Finset.mem_insert.mp member with rfl | last
  · refine ⟨.registry, ⟨.read, update, inside, by rw [same, codes, reads], by simp [both], ?_⟩, writer, by simp, other, .inr ?_⟩
    · simp [both, Lock.admits, other]
    · exact ⟨[(writer, .write)], .read, [], by rw [both]; rfl, by simp⟩
  · cases Finset.mem_singleton.mp last
    refine ⟨.registry, ⟨.write, change, rest, by rw [same, codes, writes], by simp [both], ?_⟩, 0, by simp, other.symm, .inl ?_⟩
    · simp [both, Lock.admits, FairLock.compatible]
    · exact ⟨.read, by simp [both]⟩

theorem clash_stalls {env topics readable data calls} (clash : Clash env topics readable data calls) :
    ∃ turns system writer, run System.step (start env topics readable data calls) turns = some system ∧
      system.Stalled {0, writer} := by
  obtain ⟨rfl, broadcasts, ⟨call, clock⟩, present, mode⟩ := clash
  obtain ⟨index, listed⟩ := getElem?_of_mem present
  have starts : (start env topics true data calls).codes[0]? = some (replayCode env topics true) := rfl
  have bound : 0 < (start env topics true data calls).codes.length := Nat.succ_pos _
  obtain ⟨entered, took, kept, enteredCodes, enteredLocks⟩ := take_free starts rfl
  have held : entered.locks = replaying := enteredLocks
  obtain ⟨loaded, passed, _, loadedLocks, loadedCodes⟩ :=
    pass_section (enteredCodes ▸ getElem?_set_self bound) (show entered.locks .wal = {} by rw [held]; rfl)
  have same : entered.data = data := kept
  rw [same, if_pos rfl, enteredCodes, set_set] at loadedCodes
  obtain ⟨turns, reached, inside, ran, locks, codes⟩ := reaches_broadcast broadcasts (loadedLocks.trans held)
    (loadedCodes ▸ getElem?_set_self bound)
  rw [loadedCodes, set_set] at codes
  have writes : reached.codes[index + 1]? = some (call.code clock) := by
    rw [codes, getElem?_set_ne (by omega)]
    simp [start, listed]
  rw [RegistryCall.code, mode] at writes
  obtain ⟨final, waited, stalled⟩ := writer_between (by omega) locks (codes ▸ getElem?_set_self bound) writes
  refine ⟨[0] ++ ([0, 0] ++ (turns ++ [index + 1, 0])), final, index + 1, ?_, stalled⟩
  have entering : run System.step (start env topics true data calls) [0] = some entered := by
    simp only [run, took, bind_some]
  rw [run_append, entering, bind_some, run_append, passed, bind_some, run_append, ran]
  exact waited

/-- A replay never waits in a circle with calls on the registry exactly when it comes to no
broadcast that is due, or none of the calls writes the registry. -/
theorem replay_free_iff (env : Env) (topics : Option (List String)) (readable : Bool) (data : RegistryData)
    (calls : List (RegistryCall × SystemTime)) :
    (∀ turns system, run System.step (RegistrySystem.start env topics readable data calls) turns = some system →
      ∀ tasks, 0 ∈ tasks → ¬ system.Stalled tasks) ↔ ¬ Clash env topics readable data calls := by
  constructor
  · intro safe clash
    obtain ⟨turns, system, writer, ran, stalled⟩ := clash_stalls clash
    exact safe turns system ran _ (Finset.mem_insert_self _ _) stalled
  · intro peace turns system ran tasks _
    exact never_stalled peace ran tasks

private def notice : EMessage := EMessage.new "notice" 0 "news" [] .broadcast none

private def noticeWal : DelayStore := .inProcess (WalStore.empty.append (WalRecord.fromMsg notice))

/-- A heartbeat arrives while a broadcast is replayed. -/
theorem heartbeat_meets_broadcast :
    ∃ turns system writer, run System.step (RegistrySystem.start { nodeType := .host, registry := ∅ } none true ⟨∅, noticeWal⟩
      [(.heartbeat "w", 0)]) turns = some system ∧ system.Stalled {0, writer} :=
  clash_stalls ⟨rfl, by decide +kernel, _, mem_cons_self, rfl⟩

end EventBase.Proofs.ReplayDeadlock
