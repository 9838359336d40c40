import EventBase.MemoryQueue

/-! Everything a call on the memory queue can do. Batches are claims in a row. -/

namespace EventBase.Proofs.QueueSteps
open Option MemoryQueue

variable {α : Type} {config : QueueConfig}

inductive Takes (config : QueueConfig) (consumer : Nat) : MemoryQueue α → List (ClaimedMessage α) → MemoryQueue α → Prop
  | done (queue : MemoryQueue α) : Takes config consumer queue [] queue
  | take {queue final : MemoryQueue α} {table : Table α} {msg : α} {rest : List α} {claims : List (ClaimedMessage α)}
      (found : queue.pending[consumer]? = some table) (channel : queue.channel = msg :: rest)
      (more : Takes config consumer (queue.take config consumer table msg rest).2 claims final) :
      Takes config consumer queue ((queue.take config consumer table msg rest).1 :: claims) final

inductive Offers : QueueCall α → Prop
  | send {msg} : Offers (.send msg)
  | trySend {msg} : Offers (.trySend msg)
  | nack {consumer claimId} : Offers (.nack consumer claimId)

inductive Move (config : QueueConfig) (queue : MemoryQueue α) : QueueCall α → QueueReply α → MemoryQueue α → Prop
  | create : Move config queue .createConsumer (.created queue.pending.length)
      { queue with pending := queue.pending ++ [∅] }
  | accept {msg call} (offered : call = .send msg ∨ call = .trySend msg) :
      Move config queue call (.result (.ok ())) (queue.accept msg)
  | refuse {call error} (offers : Offers call) : Move config queue call (.result (.error error)) queue
  | receive {consumer msg rest} (channel : queue.channel = msg :: rest) :
      Move config queue (.receive consumer) (.received (some msg))
        { queue with channel := rest, received := queue.received ++ [msg] }
  | receiveNone {consumer} : Move config queue (.receive consumer) (.received none) queue
  | claim {consumer claimed next} (takes : Takes config consumer queue [claimed] next) :
      Move config queue (.claim consumer) (.claimed (some claimed)) next
  | claimNone {consumer} : Move config queue (.claim consumer) (.claimed none) queue
  | claimBatch {consumer max claims next} (takes : Takes config consumer queue claims next) :
      Move config queue (.claimBatch consumer max) (.batch claims) next
  | ack {consumer table claimId} (found : queue.pending[consumer]? = some table) :
      Move config queue (.ack consumer claimId) (.result (.ok ())) (queue.ack consumer table claimId)
  | nack {consumer table claimId msg} (found : queue.pending[consumer]? = some table)
      (claimed : table.lookup claimId = some msg) (connected : queue.disconnected = false) :
      Move config queue (.nack consumer claimId) (.result (.ok ()))
        { queue with channel := queue.channel ++ [msg], pending := queue.pending.set consumer (table.erase claimId) }

variable {queue next : MemoryQueue α}

theorem send_moves {msg call outcome} (offered : call = .send msg ∨ call = .trySend msg)
    (answered : queue.send config msg = some (outcome, next)) :
    Move config queue call (.result outcome) next := by
  simp only [send] at answered
  split at answered
  · cases answered
    obtain rfl | rfl := offered
    · exact .refuse .send
    · exact .refuse .trySend
  · split at answered
    · cases answered
    · cases answered
      exact .accept offered

theorem trySend_moves {msg outcome} (answered : queue.trySend config msg = some (outcome, next)) :
    Move config queue (.trySend msg) (.result outcome) next := by
  simp only [trySend] at answered
  split at answered
  · split at answered
    · cases answered
      exact .refuse .trySend
    · cases answered
      exact .accept (.inr rfl)
  all_goals
    split at answered
    · cases answered
      exact .refuse .trySend
    · exact send_moves (.inr rfl) answered

theorem receive_moves {consumer reply} (answered : queue.receive = some (reply, next)) :
    Move config queue (.receive consumer) (.received reply) next := by
  simp only [receive] at answered
  split at answered
  · next msg rest channel =>
    cases answered
    exact .receive channel
  · split at answered
    · cases answered
      exact .receiveNone
    · cases answered

theorem claim_moves {consumer table reply} (found : queue.pending[consumer]? = some table)
    (answered : queue.claim config consumer table = some (reply, next)) :
    Move config queue (.claim consumer) (.claimed reply) next := by
  simp only [claim] at answered
  split at answered
  · next msg rest channel =>
    cases answered
    exact .claim (.take found channel (.done _))
  · split at answered
    · cases answered
      exact .claimNone
    · cases answered

theorem claimUpTo_takes (queue : MemoryQueue α) (consumer limit : Nat) :
    Takes config consumer queue (claimUpTo config queue consumer limit).1
      (claimUpTo config queue consumer limit).2 := by
  induction limit generalizing queue with
  | zero => exact .done queue
  | succ limit ih =>
    simp only [claimUpTo]
    split
    · next table msg rest found channel => exact .take found channel (ih _)
    · exact .done queue

theorem claimBatch_takes (queue : MemoryQueue α) (consumer max : Nat) :
    Takes config consumer queue (queue.claimBatch config consumer max).1 (queue.claimBatch config consumer max).2 := by
  simp only [claimBatch]
  split
  all_goals
    split
    · exact .done queue
    · exact claimUpTo_takes queue consumer _

theorem nack_moves {consumer table claimId outcome} (found : queue.pending[consumer]? = some table)
    (answered : queue.nack config consumer table claimId = some (outcome, next)) :
    Move config queue (.nack consumer claimId) (.result outcome) next := by
  simp only [nack] at answered
  split at answered
  · next msg claimed =>
    split at answered
    · cases answered
      exact .refuse .nack
    · next connected =>
      split at answered
      · cases answered
      · cases answered
        exact .nack found claimed (Bool.eq_false_iff.mpr connected)
  · cases answered
    exact .refuse .nack

theorem call_moves {call reply} (answered : queue.call config call = some (reply, next)) :
    Move config queue call reply next := by
  cases call with
  | createConsumer =>
    cases answered
    exact .create
  | send msg =>
    obtain ⟨⟨_, _⟩, sent, same⟩ := map_eq_some_iff.mp answered
    cases same
    exact send_moves (.inl rfl) sent
  | trySend msg =>
    obtain ⟨⟨_, _⟩, sent, same⟩ := map_eq_some_iff.mp answered
    cases same
    exact trySend_moves sent
  | receive consumer =>
    simp only [call] at answered
    split at answered
    · obtain ⟨⟨_, _⟩, received, same⟩ := map_eq_some_iff.mp answered
      cases same
      exact receive_moves received
    · cases answered
  | claim consumer =>
    obtain ⟨table, found, rest⟩ := bind_eq_some_iff.mp answered
    obtain ⟨⟨_, _⟩, claimed, same⟩ := map_eq_some_iff.mp rest
    cases same
    exact claim_moves found claimed
  | claimBatch consumer max =>
    simp only [call] at answered
    split at answered
    · cases answered
      exact .claimBatch (claimBatch_takes queue consumer max)
    · cases answered
  | ack consumer claimId =>
    obtain ⟨table, found, same⟩ := map_eq_some_iff.mp answered
    cases same
    exact .ack found
  | nack consumer claimId =>
    obtain ⟨table, found, rest⟩ := bind_eq_some_iff.mp answered
    obtain ⟨⟨_, _⟩, returned, same⟩ := map_eq_some_iff.mp rest
    cases same
    exact nack_moves found returned

end EventBase.Proofs.QueueSteps
