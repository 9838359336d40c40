import EventBase.Dispatcher

/-! One iteration of the dispatcher keeps the message it claimed, unless the hops are spent or
a relay is acknowledged that was not sent. -/

namespace EventBase.Proofs.DispatcherConservation
open Dispatcher

def SameMessage (msg copy : EMessage) : Prop :=
  { copy with toWorker := msg.toWorker, attempts := msg.attempts } = msg

inductive Held (topic : TopicState) (msg : EMessage) : Prop
  | inbox (channel : Nat) (copy : EMessage) (member : copy ∈ topic.inboxes channel) (same : SameMessage msg copy)
  | queue (copy : EMessage) (member : copy ∈ topic.queue) (same : SameMessage msg copy)
  | claim (claimId : String) (copy : EMessage) (found : topic.claims.lookup claimId = some copy)
      (same : SameMessage msg copy)

/-- The documented exception: a foreign target and no hops left. -/
structure Expired (node : Option String) (cached : List CachedWorker) (msg : EMessage) : Prop where
  targeted : msg.toWorker.isSome = true
  foreign : localMatch node cached msg.toWorker = none
  spent : maxTargetedHops ≤ msg.attempts

structure Relayed (node : Option String) (cached : List CachedWorker) (msg : EMessage) : Prop where
  workers : cached ≠ []
  targeted : msg.toWorker.isSome = true
  foreign : localMatch node cached msg.toWorker = none
  hops : ¬ maxTargetedHops ≤ msg.attempts

/-- What the dispatcher can decide about a message, and when. -/
inductive Planned (node : Option String) (cached : List CachedWorker) (msg : EMessage) : Plan → Prop
  | requeue (empty : cached = []) : Planned node cached msg .requeue
  | deliver {worker} (member : worker ∈ cached)
    (chosen : localMatch node cached msg.toWorker = some worker ∨ msg.toWorker = none) :
    Planned node cached msg (.deliver worker { msg with toWorker := some worker.name })
  | expire (expired : Expired node cached msg) : Planned node cached msg .expire
  | relay (relayed : Relayed node cached msg) : Planned node cached msg (.relay { msg with attempts := msg.attempts + 1 })

theorem plan_cases (node : Option String) (cached : List CachedWorker) (cursor : Nat) (msg : EMessage) :
    ∃ decided, (plan node cached cursor msg).1 = decided ∧ Planned node cached msg decided := by
  refine ⟨_, rfl, ?_⟩
  cases cached with
  | nil => exact .requeue rfl
  | cons first rest =>
    cases found : localMatch node (first :: rest) msg.toWorker with
    | some worker =>
      obtain ⟨target, -, matched⟩ := Option.bind_eq_some_iff.mp found
      simp only [plan, found]
      exact .deliver (List.mem_of_find?_eq_some matched) (.inl found)
    | none =>
      by_cases targeted : msg.toWorker.isSome = true
      · by_cases spent : maxTargetedHops ≤ msg.attempts
        · simp only [plan, found, targeted, spent, if_true]
          exact .expire ⟨targeted, found, spent⟩
        · simp only [plan, found, targeted, spent, if_true, if_false]
          exact .relay ⟨List.cons_ne_nil _ _, targeted, found, spent⟩
      · have inside : cursor % (rest.length + 1) < rest.length + 1 := Nat.mod_lt _ (Nat.succ_pos _)
        simp only [plan, found, targeted, if_false, Bool.false_eq_true]
        exact .deliver (List.get_mem (first :: rest) ⟨cursor % (rest.length + 1), inside⟩) (.inr (by simpa using targeted))

section
variable {topic : TopicState} {msg : EMessage} {claimId : String} (answers : Answers)

theorem delivered_held (topic : TopicState) (channel : Nat) {copy} (same : SameMessage msg copy) :
    Held ((topic.deliver channel copy).acknowledge answers claimId) msg := by
  have member : copy ∈ ((topic.deliver channel copy).acknowledge answers claimId).inboxes channel := by
    simp only [TopicState.acknowledge, TopicState.deliver]
    split <;> simp
  exact .inbox channel copy member same

theorem nacked_held (claimed : topic.claims.lookup claimId = some msg) :
    Held (topic.negativeAcknowledge answers claimId) msg := by
  unfold TopicState.negativeAcknowledge
  cases answers.nack with
  | requeued =>
    simp only [claimed]
    exact .queue msg (by simp) rfl
  | requeuedUnreleased =>
    simp only [claimed]
    exact .queue msg (by simp) rfl
  | failed => exact .claim claimId msg claimed rfl

theorem relayed_held (claimed : topic.claims.lookup claimId = some msg) {copy} (same : SameMessage msg copy)
    (kept : ¬ (answers.ack = true ∧ answers.send = false)) :
    Held ((topic.acknowledge answers claimId).send answers copy) msg := by
  cases sent : answers.send with
  | true =>
    simp only [TopicState.send, sent, if_true]
    exact .queue copy (by simp) same
  | false =>
    have unacknowledged : answers.ack = false := by simpa [sent] using kept
    simp only [TopicState.send, TopicState.acknowledge, sent, unacknowledged, Bool.false_eq_true, if_false]
    exact .claim claimId msg claimed rfl

end

/-- The claim is given up and nothing takes its place: the relay branch, an
acknowledgement that takes effect and a send that fails. -/
structure Forsaken (node : Option String) (cached : List CachedWorker) (answers : Answers) (msg : EMessage) : Prop where
  relayed : Relayed node cached msg
  acknowledged : answers.ack = true
  unsent : answers.send = false

/-- The claimed message is conserved by the iteration exactly when it is not
forsaken, unless another copy of it is held anyway. -/
theorem conserved_iff_not_forsaken (node : Option String) (maps : WorkerMaps) (answers : Answers)
    (dispatcher : Dispatcher) (topic : TopicState) (msg : EMessage) (claimId : String)
    (current : Dispatcher) (holding : TopicState)
    (taken : dispatcher.take topic answers = (some (msg, claimId), current, holding))
    (claimed : holding.claims.lookup claimId = some msg) :
    (Held (dispatcher.iteration node maps answers topic).2 msg ∨ Expired node (current.refresh maps).cached msg) ↔
      (¬ Forsaken node (current.refresh maps).cached answers msg ∨
        Held { holding with claims := holding.claims.erase claimId } msg) := by
  simp only [iteration, taken, dispatch]
  obtain ⟨_, decided, planned⟩ := plan_cases node (current.refresh maps).cached (current.refresh maps).cursor msg
  simp only [decided]
  cases planned with
  | requeue empty =>
    refine iff_of_true (.inl (nacked_held answers claimed)) (.inl fun forsaken => ?_)
    exact forsaken.relayed.workers empty
  | @deliver worker _ chosen =>
    have kept : ¬ Relayed node (current.refresh maps).cached msg := by
      intro relayed
      rcases chosen with found | untargeted
      · simp [relayed.foreign] at found
      · exact absurd relayed.targeted (by simp [untargeted])
    refine iff_of_true (.inl ?_) (.inl fun forsaken => kept forsaken.relayed)
    dsimp only
    split
    · exact delivered_held answers holding worker.channel rfl
    · exact nacked_held answers claimed
  | expire expired => exact iff_of_true (.inr expired) (.inl fun forsaken => forsaken.relayed.hops expired.spent)
  | relay relayed =>
    by_cases lost : answers.ack = true ∧ answers.send = false
    · have forsaken : Forsaken node (current.refresh maps).cached answers msg := ⟨relayed, lost.1, lost.2⟩
      have unexpired : ¬ Expired node (current.refresh maps).cached msg := fun expired => relayed.hops expired.spent
      simp only [TopicState.send, TopicState.acknowledge, lost.1, lost.2, if_true, Bool.false_eq_true, if_false,
        unexpired, or_false, forsaken, not_true, false_or]
    · refine iff_of_true (.inl (relayed_held answers claimed rfl lost)) (.inl fun forsaken => ?_)
      exact lost ⟨forsaken.acknowledged, forsaken.unsent⟩

section

def oneWorker : WorkerMaps := { names := ["w"], inboxes := AList.singleton "w" 0, generation := 1 }

def strayed : EMessage := EMessage.new "m" 0 "t" [] .standard (some "ghost")

def strayedTopic : TopicState := { queue := [strayed], claims := ∅, inboxes := fun _ => [] }

def strayedClaim : TopicState := { queue := [], claims := AList.singleton "1" strayed, inboxes := fun _ => [] }

end

theorem relayed_stray_held :
    Held (Dispatcher.iteration none oneWorker { claim := some "1" } {} strayedTopic).2 strayed := by
  have held := (conserved_iff_not_forsaken none oneWorker { claim := some "1" } {} strayedTopic strayed "1" {}
    strayedClaim rfl rfl).mpr (.inl fun forsaken => Bool.noConfusion forsaken.unsent)
  exact held.resolve_right fun expired => absurd expired.spent (by decide)

/-- The stray is acknowledged, then the queue refuses the relayed copy. -/
theorem refused_stray_lost :
    Dispatcher.take {} strayedTopic { claim := some "1", send := false } = (some (strayed, "1"), {}, strayedClaim) ∧
      strayedClaim.claims.lookup "1" = some strayed ∧
      ¬ (Held (Dispatcher.iteration none oneWorker { claim := some "1", send := false } {} strayedTopic).2 strayed ∨
        Expired none (Dispatcher.refresh {} oneWorker).cached strayed) := by
  refine ⟨rfl, rfl, ?_⟩
  have after : (Dispatcher.iteration none oneWorker { claim := some "1", send := false } {} strayedTopic).2 =
      { queue := [], claims := ∅, inboxes := fun _ => [] } := rfl
  rintro (held | expired)
  · rw [after] at held
    cases held with
    | inbox channel copy member => cases member
    | queue copy member => cases member
    | claim claimId copy found => simp at found
  · exact absurd expired.spent (by decide)

end EventBase.Proofs.DispatcherConservation
