import EventBase.DelayFaults
import EventBase.Proofs.WalInterchange

/-! The Redis `fetch_ready` with commands that fail. A record is gone between the command that
claims it and the return of the call. -/

namespace EventBase.Proofs.FailedFetch
open Foundations FaultyRedis AList

def Succeed (faults : Faults) (first count : Nat) : Prop :=
  ∀ command, first ≤ command → command < first + count → faults command = none

def TakesEffect (faults : Faults) (command : Nat) : Prop := ∀ fault, faults command = some fault → fault.applied = true

def Undecodable (keys : DelayKeys) (messageId : String) : Prop :=
  ∃ detail, keys.delays.lookup messageId = some (.undecodable detail)

/-- From the command `first` on, every candidate goes through: no command fails, and no
payload is `bad`. -/
structure Passes (faults : Faults) (bad : String → Prop) (first : Nat) (due : List String) : Prop where
  succeed : Succeed faults first (3 * due.length)
  decoded : ∀ messageId ∈ due, ¬ bad messageId

/-- The candidates before it go through, and its own `ZREM` takes effect. -/
def Taken (faults : Faults) (bad : String → Prop) (first : Nat) (due : List String) (messageId : String) : Prop :=
  ∃ before after, due = before ++ messageId :: after ∧ Passes faults bad first before ∧
    TakesEffect faults (first + 3 * before.length)

section
variable {faults : Faults} {keys : DelayKeys} {count : Nat} {messageId : String}

def dropped (keys : DelayKeys) (messageId : String) : DelayKeys := ⟨keys.delays.erase messageId, keys.delayIndex.erase messageId⟩

theorem command_run {α : Type} (faults : Faults) (keys : DelayKeys) (count : Nat) (reply : DelayKeys → α)
    (effect : DelayKeys → DelayKeys) :
    (faults count = none ∧ command faults reply effect ⟨keys, count⟩ = .ok (reply keys) ⟨effect keys, count + 1⟩) ∨
      ∃ fault, faults count = some fault ∧
        command faults reply effect ⟨keys, count⟩ = .error (.wal (.backend fault.detail))
          ⟨if fault.applied then effect keys else keys, count + 1⟩ := by
  cases answer : faults count with
  | none =>
    left
    simp [command, Bind.bind, EStateM.bind, get, getThe, MonadStateOf.get, EStateM.get, answer, set, EStateM.set, Pure.pure,
      EStateM.pure]
  | some fault =>
    right
    refine ⟨fault, rfl, ?_⟩
    simp [command, Bind.bind, EStateM.bind, get, getThe, MonadStateOf.get, EStateM.get, answer, set, EStateM.set, throw,
      throwThe, MonadExceptOf.throw, EStateM.throw]

/-- What a failed claim leaves: the other ids as they were, and this one too unless its
`ZREM` took effect. -/
structure Leaves (faults : Faults) (count : Nat) (messageId : String) (keys after : DelayKeys) : Prop where
  others : ∀ other, other ≠ messageId → after.delays.lookup other = keys.delays.lookup other ∧
    after.delayIndex.lookup other = keys.delayIndex.lookup other
  taken : TakesEffect faults count → after.delayIndex.lookup messageId = none
  spared : ¬ TakesEffect faults count → after = keys

theorem takesEffect_of_succeeds {command} (succeeds : faults command = none) : TakesEffect faults command := by
  intro fault failed
  cases succeeds.symm.trans failed

theorem lookup_dropped (keys : DelayKeys) {messageId other} (apart : other ≠ messageId) :
    (dropped keys messageId).delays.lookup other = keys.delays.lookup other ∧
      (dropped keys messageId).delayIndex.lookup other = keys.delayIndex.lookup other :=
  ⟨lookup_erase_ne apart, lookup_erase_ne apart⟩

theorem leaves_of_removed {after : DelayKeys} (removed : TakesEffect faults count)
    (index : after.delayIndex = keys.delayIndex.erase messageId)
    (others : ∀ other, other ≠ messageId → after.delays.lookup other = keys.delays.lookup other) :
    Leaves faults count messageId keys after where
  others other apart := ⟨others other apart, index ▸ lookup_erase_ne apart⟩
  taken _ := index ▸ lookup_erase messageId keys.delayIndex
  spared kept := absurd removed kept

theorem leaves_of_kept (kept : ¬ TakesEffect faults count) : Leaves faults count messageId keys keys where
  others _ _ := ⟨rfl, rfl⟩
  taken removed := absurd removed kept
  spared _ := rfl

theorem succeed_three (first : faults count = none) (second : faults (count + 1) = none) (third : faults (count + 2) = none) :
    Succeed faults count 3 := by
  intro command lower upper
  obtain rfl | rfl | rfl : command = count ∨ command = count + 1 ∨ command = count + 2 := by omega
  · exact first
  · exact second
  · exact third

theorem not_undecodable {payload} (found : keys.delays.lookup messageId = payload)
    (fine : ∀ detail, payload ≠ some (.undecodable detail)) : ¬ Undecodable keys messageId := by
  rintro ⟨detail, stored⟩
  exact fine detail (found.symm.trans stored)

theorem takePayload_run (faults : Faults) (keys : DelayKeys) (count : Nat) (messageId : String) :
    (faults count = none ∧ faults (count + 1) = none ∧ ¬ Undecodable keys messageId ∧
      ∃ ready, takePayload faults messageId ⟨keys, count⟩ =
        .ok ready ⟨{ keys with delays := keys.delays.erase messageId }, count + 2⟩) ∨
    (¬ (faults count = none ∧ faults (count + 1) = none ∧ ¬ Undecodable keys messageId) ∧
      ∃ error final, takePayload faults messageId ⟨keys, count⟩ = .error error final ∧
        final.keys.delayIndex = keys.delayIndex ∧
        ∀ other, other ≠ messageId → final.keys.delays.lookup other = keys.delays.lookup other) := by
  obtain ⟨first, read⟩ | ⟨fault, first, read⟩ := command_run faults keys count (fun keys => keys.delays.lookup messageId) id
  · obtain ⟨second, deleted⟩ | ⟨fault, second, deleted⟩ := command_run faults keys (count + 1) (fun _ => ())
      (fun keys => { keys with delays := keys.delays.erase messageId })
    · cases payload : keys.delays.lookup messageId with
      | none =>
        left
        refine ⟨first, second, not_undecodable payload nofun, [], (bind_ok read).trans ((bind_ok deleted).trans ?_)⟩
        simp only [payload]
        rfl
      | some value =>
        cases value with
        | encoded record =>
          left
          refine ⟨first, second, not_undecodable payload nofun, [record], (bind_ok read).trans ((bind_ok deleted).trans ?_)⟩
          simp only [payload]
          rfl
        | undecodable detail =>
          right
          refine ⟨fun quiet => quiet.2.2 ⟨detail, payload⟩, .wal (.corrupted ("fetch_ready: " ++ detail)),
            ⟨{ keys with delays := keys.delays.erase messageId }, count + 2⟩, (bind_ok read).trans ((bind_ok deleted).trans ?_), ?_, ?_⟩
          · simp only [payload]
            rfl
          · rfl
          · intro other apart
            exact lookup_erase_ne apart
    · right
      refine ⟨fun quiet => ?_, _, _, (bind_ok read).trans (bind_error deleted), ?_, ?_⟩
      · cases quiet.2.1.symm.trans second
      · dsimp only
        split <;> rfl
      · intro other apart
        dsimp only
        split
        · exact lookup_erase_ne apart
        · rfl
  · right
    refine ⟨fun quiet => ?_, _, _, bind_error read, ?_, ?_⟩
    · cases quiet.1.symm.trans first
    · rw [id, ite_self]
    · intro other _
      rw [id, ite_self]

theorem claimDue_run (member : messageId ∈ keys.delayIndex) :
    (Succeed faults count 3 ∧ ¬ Undecodable keys messageId ∧
      ∃ ready, claimDue faults messageId ⟨keys, count⟩ = .ok ready ⟨dropped keys messageId, count + 3⟩) ∨
    (¬ (Succeed faults count 3 ∧ ¬ Undecodable keys messageId) ∧
      ∃ error final, claimDue faults messageId ⟨keys, count⟩ = .error error final ∧
        Leaves faults count messageId keys final.keys) := by
  have claimed : decide (messageId ∈ keys.delayIndex) = true := decide_eq_true member
  obtain ⟨first, removed⟩ | ⟨fault, first, removed⟩ := command_run faults keys count
    (fun keys => decide (messageId ∈ keys.delayIndex)) (fun keys => { keys with delayIndex := keys.delayIndex.erase messageId })
  · have reached : claimDue faults messageId ⟨keys, count⟩ =
        takePayload faults messageId ⟨⟨keys.delays, keys.delayIndex.erase messageId⟩, count + 1⟩ := by
      refine (bind_ok removed).trans ?_
      rw [claimed, if_pos rfl]
    rw [reached]
    obtain ⟨second, third, decodes, ready, ran⟩ | ⟨fails, error, final, ran, index, others⟩ :=
      takePayload_run faults ⟨keys.delays, keys.delayIndex.erase messageId⟩ (count + 1) messageId
    · exact .inl ⟨succeed_three first second third, decodes, ready, ran⟩
    · refine .inr ⟨fun quiet => fails ⟨?_, ?_, quiet.2⟩, error, final, ran, ?_⟩
      · exact quiet.1 (count + 1) (by omega) (by omega)
      · exact quiet.1 (count + 1 + 1) (by omega) (by omega)
      · exact leaves_of_removed (takesEffect_of_succeeds first) index others
  · refine .inr ⟨fun quiet => ?_, _, _, bind_error removed, ?_⟩
    · cases (quiet.1 count (by omega) (by omega)).symm.trans first
    · cases answer : fault.applied with
      | true =>
        apply leaves_of_removed
        · intro other failed
          cases first.symm.trans failed
          exact answer
        · rfl
        · exact fun _ _ => rfl
      | false =>
        apply leaves_of_kept
        intro removed
        cases answer.symm.trans (removed fault first)

end

section
variable {faults : Faults} {bad : String → Prop} {first : Nat} {head : String} {rest : List String}

theorem succeed_add (faults : Faults) (first m n : Nat) :
    Succeed faults first (m + n) ↔ Succeed faults first m ∧ Succeed faults (first + m) n := by
  constructor
  · intro succeed
    refine ⟨fun command lower upper => ?_, fun command lower upper => ?_⟩
    · exact succeed command lower (by omega)
    · exact succeed command (by omega) (by omega)
  · rintro ⟨early, late⟩ command lower upper
    by_cases before : command < first + m
    · exact early command lower before
    · exact late command (by omega) (by omega)

theorem passes_cons : Passes faults bad first (head :: rest) ↔
    (Succeed faults first 3 ∧ ¬ bad head) ∧ Passes faults bad (first + 3) rest := by
  have split := succeed_add faults first 3 (3 * rest.length)
  have total : 3 * (head :: rest).length = 3 + 3 * rest.length := by rw [List.length_cons]; omega
  constructor
  · rintro ⟨succeed, decoded⟩
    rw [total, split] at succeed
    obtain ⟨fine, others⟩ := List.forall_mem_cons.mp decoded
    exact ⟨⟨succeed.1, fine⟩, succeed.2, others⟩
  · rintro ⟨⟨early, fine⟩, late, others⟩
    refine ⟨?_, List.forall_mem_cons.mpr ⟨fine, others⟩⟩
    rw [total, split]
    exact ⟨early, late⟩

theorem passes_nil : Passes faults bad first [] where
  succeed command lower upper := by
    rw [List.length_nil] at upper
    omega
  decoded _ member := by cases member

theorem Taken.mem {due messageId} (taken : Taken faults bad first due messageId) : messageId ∈ due := by
  obtain ⟨before, after, rfl, -⟩ := taken
  exact List.mem_append_right before List.mem_cons_self

theorem taken_cons {messageId} : Taken faults bad first (head :: rest) messageId ↔
    (messageId = head ∧ TakesEffect faults first) ∨
      (Succeed faults first 3 ∧ ¬ bad head) ∧ Taken faults bad (first + 3) rest messageId := by
  have place (before : List String) : first + 3 + 3 * before.length = first + 3 * (head :: before).length := by
    rw [List.length_cons]
    omega
  constructor
  · rintro ⟨before, after, split, passes, removed⟩
    cases before with
    | nil =>
      cases split
      exact .inl ⟨rfl, removed⟩
    | cons other before =>
      cases split
      rw [passes_cons] at passes
      exact .inr ⟨passes.1, before, after, rfl, passes.2, (place before).symm ▸ removed⟩
  · rintro (⟨rfl, removed⟩ | ⟨through, before, after, rfl, passes, removed⟩)
    · exact ⟨[], rest, rfl, passes_nil, removed⟩
    · exact ⟨head :: before, after, rfl, passes_cons.mpr ⟨through, passes⟩, place before ▸ removed⟩

end

section
variable {faults : Faults} {bad : String → Prop}

theorem mem_dropped {keys head other} (apart : other ≠ head) (member : other ∈ keys.delayIndex) :
    other ∈ (dropped keys head).delayIndex := by
  rw [← lookup_isSome] at member ⊢
  rwa [(lookup_dropped keys apart).2]

theorem undecodable_dropped {keys head other} (apart : other ≠ head) :
    Undecodable (dropped keys head) other ↔ Undecodable keys other := by
  rw [Undecodable, Undecodable, (lookup_dropped keys apart).1]

def Ends (faults : Faults) (bad : String → Prop) (first : Nat) (due : List String) (keys : DelayKeys) :
    EStateM.Result CoreError DelaySession (List WalRecord) → Prop
  | .ok _ _ => Passes faults bad first due
  | .error _ final => ¬ Passes faults bad first due ∧ ∀ messageId,
    (Taken faults bad first due messageId → final.keys.delayIndex.lookup messageId = none) ∧
      (¬ Taken faults bad first due messageId → final.keys.delayIndex.lookup messageId = keys.delayIndex.lookup messageId ∧
        final.keys.delays.lookup messageId = keys.delays.lookup messageId)

theorem claimAll_ends {due} (distinct : due.Nodup) (keys : DelayKeys) (first : Nat) (ready : List WalRecord)
    (indexed : ∀ messageId ∈ due, messageId ∈ keys.delayIndex)
    (payloads : ∀ messageId ∈ due, Undecodable keys messageId ↔ bad messageId) :
    Ends faults bad first due keys (claimAll faults ready due ⟨keys, first⟩) := by
  induction due generalizing keys first ready with
  | nil => exact passes_nil
  | cons head rest ih =>
    obtain ⟨fresh, distinct⟩ := List.nodup_cons.mp distinct
    have apart : ∀ other ∈ rest, other ≠ head := fun other member same => fresh (same ▸ member)
    have here := payloads head List.mem_cons_self
    obtain ⟨succeed, decodes, claimed, ran⟩ | ⟨fails, error, final, ran, leaves⟩ := claimDue_run (indexed head List.mem_cons_self)
    · have through : Succeed faults first 3 ∧ ¬ bad head := ⟨succeed, here.not.mp decodes⟩
      have removed : TakesEffect faults first := takesEffect_of_succeeds (succeed first (by omega) (by omega))
      have later := ih distinct (dropped keys head) (first + 3) (ready ++ claimed)
        (fun other member => mem_dropped (apart other member) (indexed other (List.mem_cons_of_mem _ member)))
        (fun other member => (undecodable_dropped (apart other member)).trans (payloads other (List.mem_cons_of_mem _ member)))
      rw [show claimAll faults ready (head :: rest) ⟨keys, first⟩ = _ from bind_ok ran]
      cases ended : claimAll faults (ready ++ claimed) rest ⟨dropped keys head, first + 3⟩ with
      | ok value final =>
        rw [ended] at later
        exact passes_cons.mpr ⟨through, later⟩
      | error error final =>
        rw [ended] at later
        obtain ⟨fails, each⟩ := later
        refine ⟨fun passes => fails (passes_cons.mp passes).2, fun messageId => ?_⟩
        obtain ⟨taken, spared⟩ := each messageId
        by_cases same : messageId = head
        · subst same
          have kept := spared fun later => fresh later.mem
          refine ⟨fun _ => ?_, fun untouched => ?_⟩
          · rw [kept.1]
            exact lookup_erase messageId keys.delayIndex
          · exact absurd (taken_cons.mpr (.inl ⟨rfl, removed⟩)) untouched
        · refine ⟨fun all => ?_, fun untouched => ?_⟩
          · obtain ⟨here, -⟩ | ⟨-, later⟩ := taken_cons.mp all
            · exact absurd here same
            · exact taken later
          · obtain ⟨index, payload⟩ := spared fun later => untouched (taken_cons.mpr (.inr ⟨through, later⟩))
            obtain ⟨samePayload, sameIndex⟩ := lookup_dropped keys same
            exact ⟨index.trans sameIndex, payload.trans samePayload⟩
    · rw [show claimAll faults ready (head :: rest) ⟨keys, first⟩ = _ from bind_error ran]
      refine ⟨fun passes => ?_, fun messageId => ⟨?_, ?_⟩⟩
      · obtain ⟨⟨succeed, fine⟩, -⟩ := passes_cons.mp passes
        exact fails ⟨succeed, here.not.mpr fine⟩
      · intro taken
        obtain ⟨rfl, removed⟩ | ⟨⟨succeed, fine⟩, -⟩ := taken_cons.mp taken
        · exact leaves.taken removed
        · exact absurd ⟨succeed, here.not.mpr fine⟩ fails
      · intro spared
        by_cases same : messageId = head
        · subst same
          have kept : ¬ TakesEffect faults first := fun removed => spared (taken_cons.mpr (.inl ⟨rfl, removed⟩))
          rw [leaves.spared kept]
          exact ⟨rfl, rfl⟩
        · exact (leaves.others messageId same).symm

end

def keysOf (store : RedisWal) : DelayKeys := ⟨mapValues .encoded store.delays, store.delayIndex⟩

theorem command_faultless {α : Type} (keys : DelayKeys) (count : Nat) (reply : DelayKeys → α) (effect : DelayKeys → DelayKeys) :
    command (fun _ => none) reply effect ⟨keys, count⟩ = .ok (reply keys) ⟨effect keys, count + 1⟩ := rfl

theorem claimDue_faultless (messageId : String) (ready : List WalRecord) (store : RedisWal) (count : Nat) :
    ∃ claimed after, claimDue (fun _ => none) messageId ⟨keysOf store, count⟩ =
        .ok claimed ⟨keysOf (RedisWal.claimDue (ready, store) messageId).2, after⟩ ∧
      (RedisWal.claimDue (ready, store) messageId).1 = ready ++ claimed := by
  have removes := command_faultless (keysOf store) count (fun keys => decide (messageId ∈ keys.delayIndex))
    (fun keys => { keys with delayIndex := keys.delayIndex.erase messageId })
  by_cases member : messageId ∈ store.delayIndex
  · have indexed : decide (messageId ∈ (keysOf store).delayIndex) = true := decide_eq_true member
    have claims : RedisWal.claimDue (ready, store) messageId = (ready ++ (store.delays.lookup messageId).toList,
        { store with delayIndex := store.delayIndex.erase messageId, delays := store.delays.erase messageId }) := if_pos member
    rw [claims]
    refine ⟨(store.delays.lookup messageId).toList, count + 3, ?_, rfl⟩
    refine (bind_ok removes).trans ?_
    rw [indexed, if_pos rfl]
    refine (bind_ok (command_faultless _ _ _ _)).trans ((bind_ok (command_faultless _ _ _ _)).trans ?_)
    simp only [keysOf, lookup_mapValues, mapValues_erase, id]
    cases store.delays.lookup messageId <;> rfl
  · have indexed : decide (messageId ∈ (keysOf store).delayIndex) = false := decide_eq_false member
    have passes : RedisWal.claimDue (ready, store) messageId = (ready, store) := if_neg member
    rw [passes]
    refine ⟨[], count + 1, (bind_ok removes).trans ?_, (List.append_nil ready).symm⟩
    have absent : (keysOf store).delayIndex.erase messageId = store.delayIndex := by
      refine AList.ext ?_
      exact List.kerase_of_notMem_keys member
    rw [indexed, if_neg nofun, absent]
    rfl

theorem claimAll_faultless (due : List String) (ready : List WalRecord) (store : RedisWal) (count : Nat) :
    ∃ after, claimAll (fun _ => none) ready due ⟨keysOf store, count⟩ =
      .ok (due.foldl RedisWal.claimDue (ready, store)).1 ⟨keysOf (due.foldl RedisWal.claimDue (ready, store)).2, after⟩ := by
  induction due generalizing ready store count with
  | nil => exact ⟨count, rfl⟩
  | cons messageId rest ih =>
    obtain ⟨claimed, middle, ran, added⟩ := claimDue_faultless messageId ready store count
    obtain ⟨after, later⟩ := ih (ready ++ claimed) (RedisWal.claimDue (ready, store) messageId).2 middle
    refine ⟨after, (bind_ok ran).trans ?_⟩
    rw [List.foldl_cons, later, ← added]

/-- Where no command fails, the commands are the atomic `fetch_ready`. -/
theorem fetchReady_faultless (store : RedisWal) (now : SystemTime) :
    ∃ after, fetchReady (fun _ => none) now ⟨keysOf store, 0⟩ =
      .ok (store.fetchReady now).1 ⟨keysOf (store.fetchReady now).2, after⟩ :=
  claimAll_faultless ((keysOf store).dueIds now) [] store 1

/-- Every due record that decodes is still in the payload hash and in the index. -/
def Kept (keys : DelayKeys) (now : SystemTime) (after : DelayKeys) : Prop :=
  ∀ messageId record, messageId ∈ keys.dueIds now → keys.delays.lookup messageId = some (.encoded record) →
    after.delays.lookup messageId = some (.encoded record) ∧
      after.delayIndex.lookup messageId = keys.delayIndex.lookup messageId

/-- Nothing fails and every payload decodes, or the failure comes before the `ZREM` of any
due record that decodes has taken effect. -/
def Harmless (faults : Faults) (keys : DelayKeys) (now : SystemTime) : Prop :=
  faults 0 = none →
    Passes faults (Undecodable keys) 1 (keys.dueIds now) ∨
      ∀ messageId record, keys.delays.lookup messageId = some (.encoded record) →
        ¬ Taken faults (Undecodable keys) 1 (keys.dueIds now) messageId

theorem mem_index_of_due {keys : DelayKeys} {now messageId} (due : messageId ∈ keys.dueIds now) :
    messageId ∈ keys.delayIndex := by
  obtain ⟨indexed, found, -⟩ := mem_keysWhere.mp due
  rw [← lookup_isSome, found]
  rfl

theorem fetchReady_run (faults : Faults) (keys : DelayKeys) (now : SystemTime) :
    (faults 0 = none ∧ Ends faults (Undecodable keys) 1 (keys.dueIds now) keys (fetchReady faults now ⟨keys, 0⟩)) ∨
      (faults 0 ≠ none ∧ ∃ error count, fetchReady faults now ⟨keys, 0⟩ = .error error ⟨keys, count⟩) := by
  obtain ⟨answered, listed⟩ | ⟨fault, failed, refused⟩ := command_run faults keys 0 (fun keys => keys.dueIds now) id
  · left
    refine ⟨answered, ?_⟩
    rw [show fetchReady faults now ⟨keys, 0⟩ = _ from bind_ok listed]
    have distinct : (keys.dueIds now).Nodup := nodup_keysWhere keys.delayIndex _
    exact claimAll_ends distinct keys 1 [] (fun _ due => mem_index_of_due due) fun _ _ => Iff.rfl
  · right
    rw [id, ite_self] at refused
    exact ⟨fun answered => (by cases answered.symm.trans failed), _, _, bind_error refused⟩

/-- For every delay store, clock and pattern of failures: a failing fetch keeps every
record if and only if the failure comes before one of them is taken. -/
theorem failed_fetch_keeps_iff (faults : Faults) (keys : DelayKeys) (now : SystemTime) :
    (∀ error final, fetchReady faults now ⟨keys, 0⟩ = .error error final → Kept keys now final.keys) ↔
      Harmless faults keys now := by
  obtain ⟨answered, ends⟩ | ⟨refused, error, count, failed⟩ := fetchReady_run faults keys now
  · cases ended : fetchReady faults now ⟨keys, 0⟩ with
    | ok value final =>
      rw [ended] at ends
      exact ⟨fun _ _ => .inl ends, fun _ _ _ failed => (by cases failed)⟩
    | error error final =>
      rw [ended] at ends
      obtain ⟨fails, each⟩ := ends
      constructor
      · intro keeps _
        right
        intro messageId record decodes taken
        obtain ⟨-, indexed⟩ := keeps error final rfl messageId record taken.mem decodes
        rw [(each messageId).1 taken] at indexed
        have member := mem_index_of_due taken.mem
        rw [← lookup_isSome, ← indexed] at member
        cases member
      · rintro harmless _ _ ⟨⟩ messageId record - decodes
        obtain passes | untaken := harmless answered
        · exact absurd passes fails
        · obtain ⟨index, payload⟩ := (each messageId).2 (untaken messageId record decodes)
          exact ⟨payload.trans decodes, index⟩
  · refine ⟨fun _ answered => absurd answered refused, fun _ => ?_⟩
    intro _ _ ended messageId record _ decodes
    cases failed.symm.trans ended
    exact ⟨decodes, rfl⟩

private def reminder : WalRecord := WalRecord.fromMsg { EMessage.new "m" 0 "orders" [] .standard none with deliverAt := some 0 }

private def due : DelayKeys := ⟨(∅ : Table DelayPayload).insert "m" (.encoded reminder), (∅ : Table Int).insert "m" 0⟩

private def lostAtRead : Faults
  | 2 => some ⟨false, "connection reset"⟩
  | _ => none

/-- The due record is out of the index, so that no later fetch finds it. -/
theorem claimed_record_lost : ∃ error final, fetchReady lostAtRead 5 ⟨due, 0⟩ = .error error final ∧
    due.dueIds 5 = ["m"] ∧ final.keys.delayIndex.lookup "m" = none ∧ final.keys.dueIds 5 = [] ∧ ¬ Kept due 5 final.keys := by
  refine ⟨_, _, rfl, by decide +kernel, by decide +kernel, by decide +kernel, fun kept => ?_⟩
  have still := (kept "m" reminder (by decide +kernel) (by decide +kernel)).2
  exact absurd still (by decide +kernel)

end EventBase.Proofs.FailedFetch
