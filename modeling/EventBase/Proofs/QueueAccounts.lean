import EventBase.Foundations.AssocList
import EventBase.Foundations.Counting
import EventBase.Proofs.QueueSteps

/-! Nothing is lost or duplicated in an in-memory queue: what was sent is in the
channel, claimed, received or acknowledged, each message exactly once; and the channel
is first in, first out. -/

namespace EventBase.Proofs.QueueAccounts
open Foundations QueueSteps List Option AList MemoryQueue

variable {α : Type} {config : QueueConfig}

/-- The claims of all consumers that are neither acknowledged nor given back. -/
def held (pending : List (Table α)) : Multiset α := (pending.map fun table => (Table.values table : Multiset α)).sum

/-- The books balance, and every claim id in use was made by an earlier claim. -/
structure Balanced (config : QueueConfig) (queue : MemoryQueue α) : Prop where
  balance : (queue.sent : Multiset α) = queue.channel + held queue.pending + queue.received + queue.acked
  minted : ∀ table ∈ queue.pending, ∀ claimId ∈ table, ∃ made < queue.claims, config.uuid made = claimId

section
variable {pending : List (Table α)} {consumer : Nat} {table : Table α} (found : pending[consumer]? = some table)
include found

theorem held_set (other : Table α) :
    held (pending.set consumer other) + (Table.values table : Multiset α) =
      held pending + (Table.values other : Multiset α) :=
  sum_map_set other found

theorem held_insert {claimId} (fresh : claimId ∉ table) (msg : α) :
    held (pending.set consumer (table.insert claimId msg)) = msg ::ₘ held pending := by
  have values : (Table.values (table.insert claimId msg) : Multiset α) = msg ::ₘ (Table.values table : Multiset α) :=
    Multiset.coe_eq_coe.mpr (values_insert_perm fresh msg)
  have moved := held_set found (table.insert claimId msg)
  rw [values, Multiset.add_cons, ← Multiset.cons_add] at moved
  exact add_right_cancel moved

theorem held_erase {claimId} {msg : α} (claimed : table.lookup claimId = some msg) :
    msg ::ₘ held (pending.set consumer (table.erase claimId)) = held pending := by
  have values : (Table.values table : Multiset α) = msg ::ₘ (Table.values (table.erase claimId) : Multiset α) :=
    Multiset.coe_eq_coe.mpr (values_erase_perm claimed)
  have moved := held_set found (table.erase claimId)
  rw [values, Multiset.add_cons, ← Multiset.cons_add] at moved
  exact add_right_cancel moved

theorem held_erase_absent {claimId} (absent : claimId ∉ table) :
    held (pending.set consumer (table.erase claimId)) = held pending := by
  have same : Table.values (table.erase claimId) = Table.values table := by
    have entries : (table.erase claimId).entries = table.entries := kerase_of_notMem_keys absent
    rw [Table.values, Table.values, entries]
  have moved := held_set found (table.erase claimId)
  rw [same] at moved
  exact add_right_cancel moved

end

namespace Balanced
variable {queue : MemoryQueue α} (balanced : Balanced config queue)
include balanced

theorem minted_erase {consumer : Nat} {table : Table α} (found : queue.pending[consumer]? = some table) (claimId : String) :
    ∀ other ∈ queue.pending.set consumer (table.erase claimId), ∀ id ∈ other,
      ∃ made < queue.claims, config.uuid made = id := by
  intro other member id known
  rcases mem_or_eq_of_mem_set member with old | rfl
  · exact balanced.minted other old id known
  · exact balanced.minted table (mem_of_getElem? found) id (mem_erase.mp known).2

theorem createConsumer : Balanced config { queue with pending := queue.pending ++ [∅] } := by
  refine ⟨?_, ?_⟩
  · have same : held (queue.pending ++ [∅]) = held queue.pending := by simp [held, Table.values]
    rw [same]
    exact balanced.balance
  · intro table member claimId known
    rcases mem_append.mp member with old | new
    · exact balanced.minted table old claimId known
    · rw [mem_singleton.mp new] at known
      exact absurd known (notMem_empty claimId)

theorem accept (msg : α) : Balanced config (queue.accept msg) := by
  refine ⟨?_, balanced.minted⟩
  simp only [MemoryQueue.accept, ← Multiset.coe_add, balanced.balance]
  abel

theorem fresh (distinct : config.uuid.Injective) {consumer : Nat} {table : Table α}
    (found : queue.pending[consumer]? = some table) : config.uuid queue.claims ∉ table := by
  intro known
  obtain ⟨made, earlier, same⟩ := balanced.minted table (mem_of_getElem? found) _ known
  exact absurd (distinct same) (Nat.ne_of_lt earlier)

theorem take (distinct : config.uuid.Injective) {consumer : Nat} {table : Table α} {msg : α} {rest : List α}
    (found : queue.pending[consumer]? = some table) (channel : queue.channel = msg :: rest) :
    Balanced config (queue.take config consumer table msg rest).2 := by
  refine ⟨?_, ?_⟩
  · simp only [MemoryQueue.take, held_insert found (balanced.fresh distinct found), balanced.balance, channel,
      ← Multiset.cons_coe, ← Multiset.singleton_add]
    abel
  · intro other member claimId known
    rcases mem_or_eq_of_mem_set member with old | rfl
    · obtain ⟨made, earlier, same⟩ := balanced.minted other old claimId known
      exact ⟨made, Nat.lt_succ_of_lt earlier, same⟩
    · rcases (mem_insert _).mp known with rfl | old
      · exact ⟨queue.claims, Nat.lt_succ_self _, rfl⟩
      · obtain ⟨made, earlier, same⟩ := balanced.minted table (mem_of_getElem? found) claimId old
        exact ⟨made, Nat.lt_succ_of_lt earlier, same⟩

theorem ack {consumer : Nat} {table : Table α} (found : queue.pending[consumer]? = some table) (claimId : String) :
    Balanced config (queue.ack consumer table claimId) := by
  refine ⟨?_, balanced.minted_erase found claimId⟩
  cases claimed : table.lookup claimId with
  | none =>
    simp only [MemoryQueue.ack, claimed, toList_none, append_nil, balanced.balance,
      held_erase_absent found (lookup_eq_none.mp claimed)]
  | some msg =>
    simp only [MemoryQueue.ack, claimed, toList_some, ← Multiset.coe_add, balanced.balance,
      ← held_erase found claimed, ← Multiset.singleton_add, Multiset.coe_singleton]
    abel

end Balanced

theorem Balanced.takes (distinct : config.uuid.Injective) {queue next : MemoryQueue α} {consumer : Nat}
    {claims : List (ClaimedMessage α)} (balanced : Balanced config queue)
    (takes : Takes config consumer queue claims next) : Balanced config next := by
  induction takes with
  | done => exact balanced
  | take found channel _ ih => exact ih (balanced.take distinct found channel)

theorem Balanced.move (distinct : config.uuid.Injective) {queue next : MemoryQueue α} {call : QueueCall α}
    {reply : QueueReply α} (balanced : Balanced config queue) (move : Move config queue call reply next) :
    Balanced config next := by
  cases move with
  | create => exact balanced.createConsumer
  | accept => exact balanced.accept _
  | refuse | receiveNone | claimNone => exact balanced
  | receive channel =>
    refine ⟨?_, balanced.minted⟩
    simp only [balanced.balance, channel, ← Multiset.coe_add, ← Multiset.cons_coe, ← Multiset.singleton_add,
      Multiset.coe_nil]
    abel
  | claim takes | claimBatch takes => exact balanced.takes distinct takes
  | ack found => exact balanced.ack found _
  | nack found claimed =>
    refine ⟨?_, balanced.minted_erase found _⟩
    simp only [← Multiset.coe_add, balanced.balance, ← held_erase found claimed, ← Multiset.singleton_add,
      Multiset.coe_singleton]
    abel

theorem Balanced.step (distinct : config.uuid.Injective) {queue next : MemoryQueue α} {call : QueueCall α}
    (balanced : Balanced config queue) (stepped : queue.step config call = some next) : Balanced config next := by
  obtain ⟨⟨_, _⟩, answered, rfl⟩ := map_eq_some_iff.mp stepped
  exact balanced.move distinct (call_moves answered)

theorem Balanced.initial (disconnected : Bool) : Balanced config ({ disconnected } : MemoryQueue α) where
  balance := by simp [held]
  minted _ member := by cases member

/-- After any sequence of calls the messages sent are those in the channel, in the
maps of the consumers, received and acknowledged; a call that comes back with an
error, as `try_send` and `nack` may, changes nothing. -/
theorem queue_neither_loses_nor_duplicates (distinct : config.uuid.Injective) {disconnected : Bool}
    {calls : List (QueueCall α)} {queue : MemoryQueue α}
    (ran : run (step config) { disconnected } calls = some queue) :
    (queue.sent : Multiset α) = queue.channel + held queue.pending + queue.received + queue.acked ∧
      ∀ call error next, queue.call config call = some (.result (.error error), next) → next = queue := by
  have balanced : Balanced config queue :=
    run_preserves (Balanced config) (fun kept stepped => kept.step distinct stepped) (Balanced.initial disconnected) ran
  refine ⟨balanced.balance, fun call error next answered => ?_⟩
  cases call_moves answered with
  | refuse => rfl

private def unary : QueueConfig where
  backend := .mpmc
  capacity := 2
  uuid made := String.ofList (List.replicate made 'c')
  clock _ := 0
  closedText := "closed"
  bounded _ := by decide

private theorem unary_distinct : unary.uuid.Injective := by
  intro first second same
  simpa [unary] using congrArg (fun text => text.toList.length) same

private def order (id : String) : EMessage := EMessage.new id 0 "t" [] .standard none

/-- One order is given back and claimed again by the other consumer, claims are
acknowledged twice, and a third order is received. -/
private def handovers : List (QueueCall EMessage) :=
  [.createConsumer, .createConsumer, .send (order "a"), .trySend (order "b"), .trySend (order "x"), .claim 0,
    .nack 0 "", .nack 0 "", .claimBatch 1 5, .ack 1 "c", .ack 1 "cc", .ack 1 "cc", .send (order "d"), .receive 0]

theorem handovers_balance :
    ∃ queue ∈ run (MemoryQueue.step unary) {} handovers,
      queue.acked.map EMessage.id = ["b", "a"] ∧ queue.received.map EMessage.id = ["d"] ∧
        (queue.sent : Multiset EMessage) = queue.channel + held queue.pending + queue.received + queue.acked := by
  obtain ⟨queue, ran, acked, received⟩ : ∃ queue ∈ run (step unary) {} handovers,
      queue.acked.map EMessage.id = ["b", "a"] ∧ queue.received.map EMessage.id = ["d"] := by decide +kernel
  exact ⟨queue, ran, acked, received, (queue_neither_loses_nor_duplicates unary_distinct ran).1⟩

variable {queue next final : MemoryQueue α}

/-- What a call puts at the end of the channel. -/
def entering (queue : MemoryQueue α) : QueueCall α → QueueReply α → List α
  | .send msg, .result (.ok _) | .trySend msg, .result (.ok _) => [msg]
  | .nack consumer claimId, .result (.ok _) => (queue.pending[consumer]?.bind (AList.lookup claimId)).toList
  | _, _ => []

def leaving : QueueReply α → List α
  | .received msg => msg.toList
  | .claimed claim => (claim.map ClaimedMessage.message).toList
  | .batch claims => claims.map ClaimedMessage.message
  | .created _ | .result _ => []

/-- What the calls of a run put in and what they are handed out, in order. -/
def traffic (config : QueueConfig) : MemoryQueue α → List (QueueCall α) → List α × List α
  | _, [] => ([], [])
  | queue, call :: rest =>
    match queue.call config call with
    | some (reply, next) =>
      (entering queue call reply ++ (traffic config next rest).1, leaving reply ++ (traffic config next rest).2)
    | none => ([], [])

theorem takes_order {consumer claims} (takes : Takes config consumer queue claims next) :
    queue.channel = claims.map ClaimedMessage.message ++ next.channel := by
  induction takes with
  | done => rfl
  | take found channel more ih => exact channel.trans (congrArg _ ih)

theorem move_order {call reply} (move : Move config queue call reply next) :
    queue.channel ++ entering queue call reply = leaving reply ++ next.channel := by
  cases move with
  | create | receiveNone | claimNone | ack => exact append_nil _
  | accept offered => obtain rfl | rfl := offered <;> rfl
  | refuse offers => cases offers <;> exact append_nil _
  | receive channel => exact (append_nil _).trans channel
  | claim takes | claimBatch takes => exact (append_nil _).trans (takes_order takes)
  | nack found claimed => simp [entering, leaving, found, claimed]

/-- Whoever puts in and takes out, one by one or in batches: what is handed out comes in
the order in which it was put in, a message that is given back at the end. -/
theorem channel_first_in_first_out {calls : List (QueueCall α)} (ran : run (MemoryQueue.step config) queue calls = some final) :
    queue.channel ++ (traffic config queue calls).1 = (traffic config queue calls).2 ++ final.channel := by
  induction calls generalizing queue with
  | nil =>
    cases ran
    exact append_nil _
  | cons call rest ih =>
    obtain ⟨middle, stepped, continued⟩ := run_cons ran
    obtain ⟨⟨reply, _⟩, called, rfl⟩ := map_eq_some_iff.mp stepped
    rw [traffic, called]
    rw [← append_assoc, move_order (call_moves called), append_assoc, ih continued, append_assoc]

theorem handovers_in_order :
    ∃ queue ∈ run (MemoryQueue.step unary) {} handovers, (traffic unary {} handovers).2.map EMessage.id = ["a", "b", "a", "d"] ∧
      (traffic unary {} handovers).1 = (traffic unary {} handovers).2 ++ queue.channel := by
  obtain ⟨queue, ran, handed⟩ : ∃ queue ∈ run (step unary) {} handovers,
      (traffic unary {} handovers).2.map EMessage.id = ["a", "b", "a", "d"] := by decide +kernel
  exact ⟨queue, ran, handed, channel_first_in_first_out ran⟩

end EventBase.Proofs.QueueAccounts
