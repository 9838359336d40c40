import EventBase.Foundations.AssocList
import EventBase.Foundations.Run
import EventBase.MemoryQueue

/-! A batch claim does what as many single claims do. The two may draw different
claim ids, so their queues are compared up to a renaming of ids. -/

namespace EventBase.Proofs.BatchClaims
open Foundations List AList MemoryQueue

variable {α : Type} {config : QueueConfig} {relabel : Equiv.Perm String} {consumer : Nat} {left right : MemoryQueue α}

/-- The ids drawn from now on are new to the table and to one another. -/
structure FreshIds (uuid : Nat → String) (claims : Nat) (table : Table α) : Prop where
  distinct : (fun n => uuid (claims + n)).Injective
  unused : ∀ n, uuid (claims + n) ∉ table

/-- Queues with the same channel whose claims by `consumer` are the same but for the ids. -/
structure Renamed (relabel : Equiv.Perm String) (consumer : Nat) (left right : MemoryQueue α) : Prop where
  channel : right.channel = left.channel
  disconnected : right.disconnected = left.disconnected
  claims : ∃ table other, left.pending[consumer]? = some table ∧ right.pending[consumer]? = some other ∧
    ∀ claimId, other.lookup (relabel claimId) = table.lookup claimId

/-- What a consumer does with a claim. -/
inductive Settlement where
  | ack (claimId : String)
  | nack (claimId : String)

def Settlement.call (consumer : Nat) (relabel : String → String) : Settlement → QueueCall α
  | .ack claimId => .ack consumer (relabel claimId)
  | .nack claimId => .nack consumer (relabel claimId)

theorem lookup_insert_renamed {table other : Table α} (same : ∀ id, other.lookup (relabel id) = table.lookup id)
    (msg : α) (claimId id : String) :
    (other.insert (relabel claimId) msg).lookup (relabel id) = (table.insert claimId msg).lookup id := by
  by_cases equal : id = claimId
  · subst equal
    rw [lookup_insert, lookup_insert]
  · rw [lookup_insert_ne equal, lookup_insert_ne (relabel.injective.ne equal), same]

theorem lookup_erase_renamed {table other : Table α} (same : ∀ id, other.lookup (relabel id) = table.lookup id)
    (claimId id : String) :
    (other.erase (relabel claimId)).lookup (relabel id) = (table.erase claimId).lookup id := by
  by_cases equal : id = claimId
  · subst equal
    rw [lookup_erase, lookup_erase]
  · rw [lookup_erase_ne equal, lookup_erase_ne (relabel.injective.ne equal), same]

theorem lookup_relabel {table : Table α} (kept : ∀ claimId ∈ table, relabel claimId = claimId) (claimId : String) :
    table.lookup (relabel claimId) = table.lookup claimId := by
  by_cases present : claimId ∈ table
  · rw [kept claimId present]
  · have absent : relabel claimId ∉ table := by
      intro member
      exact present (relabel.injective (kept _ member) ▸ member)
    rw [lookup_eq_none.mpr present, lookup_eq_none.mpr absent]

theorem claims_set {table other : Table α} {entries others : List (Table α)} (found : entries[consumer]? = some table)
    (present : others[consumer]? = some other) {changed changed' : Table α}
    (same : ∀ id, changed'.lookup (relabel id) = changed.lookup id) :
    ∃ table other, (entries.set consumer changed)[consumer]? = some table ∧
      (others.set consumer changed')[consumer]? = some other ∧ ∀ id, other.lookup (relabel id) = table.lookup id :=
  ⟨changed, changed', List.getElem?_set_self (List.getElem?_eq_some_iff.mp found).1,
    List.getElem?_set_self (List.getElem?_eq_some_iff.mp present).1, same⟩

theorem claims_renamed (config other : QueueConfig) (count : Nat) (renamed : Renamed relabel consumer left right)
    (enough : count ≤ left.channel.length)
    (ids : ∀ n < count, relabel (config.uuid (left.claims + n)) = other.uuid (right.claims + n)) :
    (claimUpTo config left consumer count).1.map ClaimedMessage.message = left.channel.take count ∧
      ∃ final, run (step other) right (List.replicate count (.claim consumer)) = some final ∧
        Renamed relabel consumer (claimUpTo config left consumer count).2 final := by
  induction count generalizing left right with
  | zero => exact ⟨rfl, right, rfl, renamed⟩
  | succ count ih =>
    obtain ⟨table, claimed, found, present, same⟩ := renamed.claims
    cases channel : left.channel with
    | nil => simp [channel] at enough
    | cons msg rest =>
      have opposite : right.channel = msg :: rest := renamed.channel.trans channel
      have stepped : right.step other (.claim consumer) = some (right.take other consumer claimed msg rest).2 := by
        simp [step, call, claim, present, opposite]
      have after : Renamed relabel consumer (left.take config consumer table msg rest).2
          (right.take other consumer claimed msg rest).2 := by
        refine ⟨rfl, renamed.disconnected, claims_set found present fun id => ?_⟩
        have drawn : relabel (config.uuid left.claims) = other.uuid right.claims := ids 0 (Nat.zero_lt_succ count)
        exact drawn ▸ lookup_insert_renamed same msg (config.uuid left.claims) id
      obtain ⟨messages, final, ran, reached⟩ := ih after (by simpa [channel, MemoryQueue.take] using enough) fun n bound => by
        simpa only [MemoryQueue.take, Nat.add_assoc, Nat.add_comm 1 n] using ids (n + 1) (Nat.succ_lt_succ bound)
      simp only [MemoryQueue.claimUpTo, found, channel]
      refine ⟨?_, final, ?_, reached⟩
      · rw [map_cons, messages]
        rfl
      · rw [replicate_succ, run, stepped]
        exact ran

theorem claimUpTo_min (queue : MemoryQueue α) (consumer max : Nat) :
    claimUpTo config queue consumer max =
      claimUpTo config queue consumer (min max queue.channel.length) := by
  induction max generalizing queue with
  | zero => rw [Nat.zero_min]
  | succ max ih =>
    cases channel : queue.channel with
    | nil => simp [claimUpTo, channel]
    | cons msg rest =>
      rw [length_cons, Nat.succ_min_succ]
      simp only [claimUpTo, channel]
      cases queue.pending[consumer]? with
      | none => rfl
      | some table =>
        have shorter := ih (queue.take config consumer table msg rest).2
        simp only [shorter]
        rfl

theorem claimBatch_eq (queue : MemoryQueue α) (consumer max : Nat) :
    queue.claimBatch config consumer max =
      claimUpTo config queue consumer (min max queue.channel.length) := by
  rw [claimBatch]
  split
  · split
    · next none =>
      rw [Bool.or_eq_true, decide_eq_true_eq, List.isEmpty_iff] at none
      obtain rfl | empty := none
      · rw [Nat.zero_min, claimUpTo]
      · rw [empty, length_nil, Nat.min_zero, claimUpTo]
    · rfl
  all_goals
    split
    · next none => rw [none, Nat.zero_min, claimUpTo]
    · exact claimUpTo_min queue consumer max

section
variable (config) (uuid : Nat → String) (clock : Nat → SystemTime)

theorem Renamed.settle (renamed : Renamed relabel consumer left right) (settlement : Settlement) :
    Option.Rel (Renamed relabel consumer) (left.step config (settlement.call consumer id))
      (right.step { config with uuid := uuid, clock := clock } (settlement.call consumer relabel)) := by
  obtain ⟨table, other, found, present, same⟩ := renamed.claims
  cases settlement with
  | ack claimId =>
    simp only [Settlement.call, step, call, found, present, Option.map_some]
    exact .some ⟨renamed.channel, renamed.disconnected, claims_set found present (lookup_erase_renamed same claimId)⟩
  | nack claimId =>
    have full : config.isFull right.channel.length = config.isFull left.channel.length := by rw [renamed.channel]
    simp only [Settlement.call, step, call, found, present, Option.bind_some, nack,
      same, id]
    cases table.lookup claimId with
    | none => exact .some renamed
    | some msg =>
      dsimp only
      rw [renamed.disconnected, show QueueConfig.isFull { config with uuid := uuid, clock := clock } = config.isFull from rfl,
        full]
      split
      · exact .some renamed
      · split
        · exact .none
        · exact .some ⟨congrArg (· ++ [msg]) renamed.channel, rfl,
            claims_set found present (lookup_erase_renamed same claimId)⟩

theorem Renamed.settleAll (renamed : Renamed relabel consumer left right) (settlements : List Settlement) :
    (run (MemoryQueue.step config) left (settlements.map (Settlement.call consumer id))).map MemoryQueue.channel =
      (run (step { config with uuid := uuid, clock := clock }) right
        (settlements.map (Settlement.call consumer relabel))).map MemoryQueue.channel := by
  induction settlements generalizing left right with
  | nil => exact congrArg some renamed.channel.symm
  | cons settlement rest ih =>
    have settled := renamed.settle config uuid clock settlement
    simp only [map_cons, run]
    generalize left.step config (settlement.call consumer id) = first at settled ⊢
    generalize right.step _ (settlement.call consumer relabel) = second at settled ⊢
    cases settled with
    | none => rfl
    | some after => exact ih after

/-- The answer of `claim_batch` is the first messages in order, and the queue it leaves
is the one single claims leave, with ids drawn from `uuid`, up to a renaming of the
new ids; acks and nacks then lead to the same channel. -/
def RepeatsClaims (queue : MemoryQueue α) (consumer : Nat) (table : Table α) (max : Nat)
    (answer : Except ReserveError (List (ClaimedMessage α) × MemoryQueue α)) : Prop :=
  let other := { config with uuid := uuid, clock := clock }
  let count := min max queue.channel.length
  ∃ claims batched repeated relabel, answer = .ok (claims, batched) ∧
    claims.map ClaimedMessage.message = queue.channel.take count ∧
    run (step other) queue (List.replicate count (.claim consumer)) = some repeated ∧
    (∀ claimId ∈ table, relabel claimId = claimId) ∧
    (∀ n < count, relabel (config.uuid (queue.claims + n)) = uuid (queue.claims + n)) ∧
    Renamed relabel consumer batched repeated ∧
    ∀ settlements : List Settlement,
      (run (step config) batched (settlements.map (Settlement.call consumer id))).map channel =
        (run (step other) repeated (settlements.map (Settlement.call consumer relabel))).map channel

/-- The bytes are below the limit of a `Vec`, and the allocator has them. -/
def Serves (allocates : Nat → Bool) (bytes : Nat) : Prop := bytes < 2 ^ 63 ∧ (bytes = 0 ∨ allocates bytes = true)

theorem reserve_ok_iff (allocates : Nat → Bool) (bytes : Nat) :
    reserve allocates bytes = .ok () ↔ Serves allocates bytes := by
  rw [reserve, Serves]
  split
  · next overflows => exact iff_of_false nofun fun serves => Nat.not_lt.mpr overflows serves.1
  · next fits =>
    rw [and_iff_right (Nat.lt_of_not_le fits)]
    simp [or_iff_not_imp_left]

/-- A batch claim acts as repeated claims exactly if the memory it reserves is served. -/
theorem batch_claim_repeats_iff {queue : MemoryQueue α} {consumer : Nat} {table : Table α}
    (found : queue.pending[consumer]? = some table) (fresh : FreshIds config.uuid queue.claims table)
    (others : FreshIds uuid queue.claims table) (allocates : Nat → Bool) (size max : Nat) :
    RepeatsClaims config uuid clock queue consumer table max
        (queue.claimBatchReserving config allocates size consumer max) ↔
      Serves allocates (queue.reserved config max * size) := by
  rw [claimBatchReserving, ← reserve_ok_iff]
  cases reserve allocates (queue.reserved config max * size) with
  | ok =>
    refine iff_of_true ?_ rfl
    obtain ⟨relabel, kept, drawn⟩ := exists_relabel fresh.distinct fresh.unused others.distinct others.unused
      (min max queue.channel.length)
    have start : Renamed relabel consumer queue queue := ⟨rfl, rfl, table, table, found, found, lookup_relabel kept⟩
    obtain ⟨messages, repeated, ran, reached⟩ := claims_renamed config { config with uuid := uuid, clock := clock }
      (min max queue.channel.length) start (Nat.min_le_right _ _) drawn
    rw [claimBatch_eq]
    exact ⟨_, _, repeated, relabel, rfl, messages, ran, kept, drawn, reached, reached.settleAll config uuid clock⟩
  | error =>
    refine iff_of_false ?_ nofun
    rintro ⟨_, _, _, _, returned, _⟩
    cases returned

end

private def order (n : Nat) : String := String.ofList (List.replicate n 'o')

private def hatch : QueueConfig where
  backend := .flume
  capacity := 0
  uuid := order
  clock := fun n => n
  closedText := "closed"
  bounded := fun other => absurd rfl other

theorem order_injective : order.Injective := by
  intro n m same
  simpa using congrArg List.length (String.ofList_injective same)

theorem fresh_orders : FreshIds order 0 (∅ : Table Nat) :=
  ⟨fun n m same => by simpa using order_injective same, fun _ => notMem_empty _⟩

private def waiting : MemoryQueue Nat := { channel := [1, 2, 3], pending := [∅] }

/-- A batch of two from a queue of three. -/
theorem pair_claimed :
    RepeatsClaims hatch order hatch.clock waiting 0 ∅ 2 (waiting.claimBatchReserving hatch (· ≤ 4096) 200 0 2) := by
  have found : waiting.pending[0]? = some ∅ := rfl
  exact (batch_claim_repeats_iff hatch order hatch.clock found fresh_orders fresh_orders (· ≤ 4096) 200 2).mpr
    ⟨by decide, .inr (by decide)⟩

/-- Asking for all there is fails with every allocator, however small a claim is. -/
theorem whole_queue_panics :
    ¬ ∃ allocates, RepeatsClaims hatch order hatch.clock waiting 0 ∅ (2 ^ 64 - 1)
      (waiting.claimBatchReserving hatch allocates 1 0 (2 ^ 64 - 1)) := by
  rintro ⟨allocates, _, _, _, _, returned, _⟩
  have refused : waiting.claimBatchReserving hatch allocates 1 0 (2 ^ 64 - 1) = .error .capacityOverflow := rfl
  cases refused.symm.trans returned

end EventBase.Proofs.BatchClaims
