import EventBase.Foundations.Run
import EventBase.RecvLoop

/-! Each message of a batch in the recv loop ends in exactly one of the two lists, and its
copies agree with the one it is in. -/

namespace EventBase.Proofs.RecvAccounting
open Foundations RecvPass List

def found (env : RecvEnv) (pass : RecvPass) (msg : EMessage) : Option Worker := ((pass.lock env).selectWorker env msg).1

/-- The copies of a message that is passed on. It goes unchanged to the worker that
was found. If there is none, a targeted message goes back to its topic with one more
hop or is dropped at the limit, any other one to a worker of its own. -/
inductive Passed (env : RecvEnv) (pass : RecvPass) (msg : EMessage) : List RecvEmission → Prop where
  | forwarded (worker : Worker) (selected : found env pass msg = some worker) : Passed env pass msg [.forwarded worker msg]
  | relayed (nobody : found env pass msg = none) (targeted : msg.toWorker.isSome = true) :
    Passed env pass msg [.relayed msg.topic { msg with attempts := msg.attempts + 1 }]
  | spawned (nobody : found env pass msg = none) (untargeted : msg.toWorker = none) :
    Passed env pass msg [.spawned msg.topic msg]
  | dropped (nobody : found env pass msg = none) (targeted : msg.toWorker.isSome = true)
      (hops : maxTargetedHops ≤ msg.attempts) : Passed env pass msg []

structure Booked (pass : RecvPass) (claimId : String) (acked : Bool) (copies : List RecvEmission) (next : RecvPass) : Prop where
  toAck : next.toAck = pass.toAck ++ if acked then [claimId] else []
  toNack : next.toNack = pass.toNack ++ if acked then [] else [claimId]
  emitted : next.emitted = pass.emitted ++ copies.map (claimId, ·)

section
variable (env : RecvEnv) (pass : RecvPass) (claimId : String) (msg : EMessage) (emission : RecvEmission)

theorem nack_booked : Booked pass claimId false [] (pass.nack claimId) := by
  constructor <;> simp [RecvPass.nack]

theorem ack_booked : Booked pass claimId true [] (pass.ack claimId) := by
  constructor <;> simp [RecvPass.ack]

theorem emit_booked : Booked pass claimId true [emission] ((pass.emit claimId emission).ack claimId) := by
  constructor <;> simp [RecvPass.ack, RecvPass.emit]

variable {env pass claimId msg}

theorem Booked.unlock {acked copies next} (booked : Booked (pass.lock env) claimId acked copies next) :
    Booked pass claimId acked copies next :=
  ⟨booked.toAck, booked.toNack, booked.emitted⟩

theorem selectWorker_kept : (pass.selectWorker env msg).2.toAck = pass.toAck ∧
    (pass.selectWorker env msg).2.toNack = pass.toNack ∧ (pass.selectWorker env msg).2.emitted = pass.emitted := by
  unfold selectWorker selectLocalIdleWorker
  dsimp only
  split
  · exact ⟨rfl, rfl, rfl⟩
  · split
    · exact ⟨rfl, rfl, rfl⟩
    · split <;> exact ⟨rfl, rfl, rfl⟩

theorem Booked.unselect {acked copies next} (booked : Booked (pass.selectWorker env msg).2 claimId acked copies next) :
    Booked pass claimId acked copies next := by
  obtain ⟨toAck, toNack, emitted⟩ := @selectWorker_kept env pass msg
  exact ⟨toAck ▸ booked.toAck, toNack ▸ booked.toNack, emitted ▸ booked.emitted⟩

variable (env pass claimId msg)

theorem send_booked :
    Booked pass claimId false [] (pass.send env claimId emission) ∨
      Booked pass claimId true [emission] (pass.send env claimId emission) := by
  unfold RecvPass.send
  split
  · exact .inr (emit_booked pass claimId emission)
  · exact .inl (nack_booked pass claimId)

theorem relay_booked :
    Booked pass claimId false [] (pass.relay env claimId msg) ∨
      Booked pass claimId true [.relayed msg.topic { msg with attempts := msg.attempts + 1 }] (pass.relay env claimId msg) := by
  unfold RecvPass.relay
  dsimp only
  split
  · exact (send_booked env (pass.lock env) claimId _).imp Booked.unlock Booked.unlock
  · exact .inl (nack_booked (pass.lock env) claimId).unlock

theorem createEphemeralWorker_booked :
    Booked pass claimId false [] (pass.createEphemeralWorker env claimId msg) ∨
      Booked pass claimId true [.spawned msg.topic msg] (pass.createEphemeralWorker env claimId msg) := by
  unfold RecvPass.createEphemeralWorker
  dsimp only
  split
  · exact .inr (emit_booked (pass.lock env) claimId _).unlock
  · exact .inl (nack_booked (pass.lock env) claimId).unlock

end

theorem handle_booked (env : RecvEnv) (pass : RecvPass) (claimed : ClaimedMessage EMessage) :
    Booked pass claimed.claimId false [] (pass.handle env claimed) ∨
      ∃ copies, Passed env pass claimed.message copies ∧ Booked pass claimed.claimId true copies (pass.handle env claimed) := by
  unfold RecvPass.handle
  by_cases unknown : claimed.message.topic ∉ (pass.lock env).node.router.localTopics
  · rw [if_pos unknown]
    exact .inl (nack_booked (pass.lock env) _).unlock
  rw [if_neg unknown]
  have back {acked : Bool} {copies : List RecvEmission} {next : RecvPass}
      (booked : Booked ((pass.lock env).selectWorker env claimed.message).2 claimed.claimId acked copies next) :
      Booked pass claimed.claimId acked copies next := booked.unselect.unlock
  cases selected : found env pass claimed.message with
  | some worker =>
    simp only [show ((pass.lock env).selectWorker env claimed.message).1 = some worker from selected]
    exact (send_booked env _ _ _).imp back fun booked => ⟨_, .forwarded worker selected, back booked⟩
  | none =>
    simp only [show ((pass.lock env).selectWorker env claimed.message).1 = none from selected]
    split
    · next targeted =>
      split
      · next hops => exact .inr ⟨_, .dropped selected targeted hops, back (ack_booked _ _)⟩
      · exact (relay_booked env _ _ _).imp back fun booked => ⟨_, .relayed selected targeted, back booked⟩
    · next untargeted =>
      have free : claimed.message.toWorker = none := by simpa using untargeted
      exact (createEphemeralWorker_booked env _ _ _).imp back fun booked => ⟨_, .spawned selected free, back booked⟩

def copies (pass : RecvPass) (claimId : String) : List RecvEmission :=
  (pass.emitted.filter fun entry => entry.1 = claimId).map Prod.snd

section
variable {pass next : RecvPass} {claimId : String} {acked : Bool} {added : List RecvEmission}
  (booked : Booked pass claimId acked added next)
include booked

theorem Booked.copies_self (unseen : copies pass claimId = []) : copies next claimId = added := by
  have before : pass.emitted.filter (fun entry => entry.1 = claimId) = [] := map_eq_nil_iff.mp unseen
  simp [copies, booked.emitted, filter_append, before, filter_map, Function.comp_def]

theorem Booked.copies_other {other} (different : other ≠ claimId) : copies next other = copies pass other := by
  simp [copies, booked.emitted, filter_append, filter_map, Function.comp_def, different.symm]

theorem Booked.perm : (next.toAck ++ next.toNack).Perm (pass.toAck ++ pass.toNack ++ [claimId]) := by
  rw [booked.toAck, booked.toNack]
  cases acked with
  | true =>
    have swap : ([claimId] ++ pass.toNack).Perm (pass.toNack ++ [claimId]) := perm_append_comm
    simpa using swap.append_left pass.toAck
  | false => simp

theorem Booked.mem_toAck {other} (member : other ∈ next.toAck) :
    other ∈ pass.toAck ∨ other = claimId ∧ acked = true := by
  rw [booked.toAck] at member
  cases acked <;> simpa using member

theorem Booked.mem_toNack {other} (member : other ∈ next.toNack) :
    other ∈ pass.toNack ∨ other = claimId ∧ acked = false := by
  rw [booked.toNack] at member
  cases acked <;> simpa using member

end

structure Accounted (env : RecvEnv) (start : RecvPass) (batch : List (ClaimedMessage EMessage)) (final : RecvPass) : Prop where
  once : (final.toAck ++ final.toNack).Perm (batch.map ClaimedMessage.claimId)
  own : ∀ claimId, claimId ∉ batch.map ClaimedMessage.claimId → copies final claimId = []
  nacked : ∀ claimed ∈ batch, claimed.claimId ∈ final.toNack → copies final claimed.claimId = []
  acked : ∀ before claimed after, batch = before ++ claimed :: after → claimed.claimId ∈ final.toAck →
    Passed env (start.dispatchBatch env before) claimed.message (copies final claimed.claimId)

section
variable {env : RecvEnv} {start pass next : RecvPass} {batch : List (ClaimedMessage EMessage)}
  {claimed : ClaimedMessage EMessage} {acked : Bool}
  {added : List RecvEmission}

theorem Accounted.settled (accounted : Accounted env start batch pass) {claimId}
    (settled : claimId ∈ pass.toAck ∨ claimId ∈ pass.toNack) : claimId ∈ batch.map ClaimedMessage.claimId :=
  accounted.once.mem_iff.mp (mem_append.mpr settled)

theorem Accounted.concat (accounted : Accounted env start batch pass) (ran : start.dispatchBatch env batch = pass)
    (fresh : claimed.claimId ∉ batch.map ClaimedMessage.claimId) (booked : Booked pass claimed.claimId acked added next)
    (refused : acked = false → added = []) (passed : acked = true → Passed env pass claimed.message added) :
    Accounted env start (batch ++ [claimed]) next := by
  have self : copies next claimed.claimId = added := booked.copies_self (accounted.own _ fresh)
  have other {earlier : ClaimedMessage EMessage} (member : earlier ∈ batch) : earlier.claimId ≠ claimed.claimId := by
    intro same
    exact fresh (same ▸ mem_map_of_mem member)
  refine ⟨?_, fun claimId unknown => ?_, fun earlier member settled => ?_, fun before earlier after split settled => ?_⟩
  · rw [map_append]
    exact booked.perm.trans (accounted.once.append_right _)
  · simp only [map_append, mem_append, not_or] at unknown
    rw [booked.copies_other (by simpa using unknown.2)]
    exact accounted.own claimId unknown.1
  · rcases mem_append.mp member with inside | last
    · rw [booked.copies_other (other inside)]
      rcases booked.mem_toNack settled with before | ⟨same, -⟩
      · exact accounted.nacked earlier inside before
      · exact absurd same (other inside)
    · obtain rfl := mem_singleton.mp last
      rcases booked.mem_toNack settled with before | ⟨-, nacked⟩
      · exact absurd (accounted.settled (.inr before)) fresh
      · rw [self, refused nacked]
  · rcases concat_split_cases split with ⟨rfl, rfl, -⟩ | ⟨rest, -, rfl⟩
    · rcases booked.mem_toAck settled with before | ⟨-, acked⟩
      · exact absurd (accounted.settled (.inl before)) fresh
      · rw [self, ran]
        exact passed acked
    · have inside : earlier ∈ before ++ earlier :: rest := by simp
      rw [booked.copies_other (other inside)]
      rcases booked.mem_toAck settled with known | ⟨same, -⟩
      · exact accounted.acked before earlier rest rfl known
      · exact absurd same (other inside)

end

/-- For every batch of claims with ids of their own, whatever the rest of the node does
meanwhile and whichever sends fail, every claim is settled once, what is given back
was not passed on, and what is acknowledged was passed on once or had no hops left. -/
theorem batch_accounted (env : RecvEnv) (node : RecvNode) {batch : List (ClaimedMessage EMessage)}
    (distinct : (batch.map ClaimedMessage.claimId).Nodup) :
    Accounted env { node } batch (({ node } : RecvPass).dispatchBatch env batch) := by
  induction batch using List.reverseRecOn with
  | nil => exact ⟨.refl _, fun _ _ => rfl, by simp, by simp⟩
  | append_singleton batch claimed ih =>
    rw [map_append, nodup_append] at distinct
    have fresh : claimed.claimId ∉ batch.map ClaimedMessage.claimId := by
      intro member
      exact distinct.2.2 _ member _ (by simp) rfl
    have accounted := ih distinct.1
    have turned : ({ node } : RecvPass).dispatchBatch env (batch ++ [claimed]) =
        (({ node } : RecvPass).dispatchBatch env batch).handle env claimed := by
      simp [dispatchBatch]
    rw [turned]
    rcases handle_booked env (({ node } : RecvPass).dispatchBatch env batch) claimed with booked | ⟨added, passed, booked⟩
    · exact accounted.concat rfl fresh booked (fun _ => rfl) (by simp)
    · exact accounted.concat rfl fresh booked (by simp) fun _ => passed

private def orders : RecvNode := { router := (ConsumerRouter.register {} "orders" (.ok 0)).2 }

private def batch : List (ClaimedMessage EMessage) :=
  [⟨EMessage.new "a" 0 "orders" [] .standard none, "1", 0⟩, ⟨EMessage.new "b" 0 "orders" [] .standard (some "w"), "2", 0⟩,
    ⟨EMessage.new "c" 0 "parcels" [] .standard none, "3", 0⟩]

theorem mixed_batch_accounted :
    Accounted {} { node := orders } batch (({ node := orders } : RecvPass).dispatchBatch {} batch) ∧
      (({ node := orders } : RecvPass).dispatchBatch {} batch).toAck = ["1", "2"] ∧
      (({ node := orders } : RecvPass).dispatchBatch {} batch).toNack = ["3"] := by
  have distinct : (batch.map ClaimedMessage.claimId).Nodup := by decide
  exact ⟨batch_accounted {} orders distinct, by decide +kernel, by decide +kernel⟩

end EventBase.Proofs.RecvAccounting
