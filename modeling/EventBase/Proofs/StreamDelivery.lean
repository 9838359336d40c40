import EventBase.Foundations.AssocList
import EventBase.RedisStream

/-! The Redis queue delivers at least once: an entry stays in the stream or in some claim
until it is acknowledged. -/

namespace EventBase.Proofs.StreamDelivery
open Foundations List Option

section
variable (stream : Stream StreamEntry)

def Carries (id : Nat) (message : EMessage) : Prop :=
  ∃ entry, stream.entries[id]? = some entry ∧ entry.payload = some message

def Foreign (id : Nat) : Prop := ∃ entry, stream.entries[id]? = some entry ∧ entry.payload = none

def IsCopy (id copy : Nat) : Prop := ∃ entry, stream.entries[copy]? = some entry ∧ entry.parent = some id

end

section
variable (stream : Stream StreamEntry) (acked : List Nat)

def PhaseOk : StreamPhase → Prop
  | .receiving foreign messages =>
    (∀ id ∈ foreign, Foreign stream id) ∧ ∀ claim ∈ messages, Carries stream claim.1 claim.2
  | .acking entry => entry ∈ acked
  | .adding entry message => Carries stream entry message
  | .releasing entry => ∃ copy, IsCopy stream entry copy
  | _ => True

structure ConsumerOk (consumer : StreamConsumer) : Prop where
  claims : ∀ claimId claim, consumer.pending.lookup claimId = some claim → Carries stream claim.1 claim.2
  phase : PhaseOk stream acked consumer.phase

end

/-- Every message is unread, pending, acknowledged by a client, or has a copy that is newer. -/
structure Kept (queue : StreamQueue) : Prop where
  bounded : queue.stream.Bounded
  links : ∀ id copy, IsCopy queue.stream id copy →
    id < copy ∧ ∀ message, Carries queue.stream id message → Carries queue.stream copy message
  consumers : ∀ consumer ∈ queue.consumers, ConsumerOk queue.stream queue.acked consumer
  entries : ∀ id message, Carries queue.stream id message →
    queue.stream.holds id ∨ id ∈ queue.acked ∨ ∃ copy, IsCopy queue.stream id copy

theorem Kept.init (consumers : Nat) : Kept (StreamQueue.init consumers) where
  bounded _ found := by cases found
  links _ _ copied := by
    obtain ⟨_, found, _⟩ := copied
    cases found
  consumers consumer member := by
    obtain ⟨_, rfl⟩ := mem_replicate.mp member
    refine ⟨?_, trivial⟩
    intro claimId claim found
    cases found
  entries _ _ carried := by
    obtain ⟨_, found, _⟩ := carried
    cases found

section
variable {before after : Stream StreamEntry} (extends_ : before.entries <+: after.entries)
include extends_

private theorem entry_grow {id : Nat} {entry} (found : before.entries[id]? = some entry) :
    after.entries[id]? = some entry := by
  obtain ⟨more, grown⟩ := extends_
  rw [← grown, List.getElem?_append_left (List.getElem?_eq_some_iff.mp found).1]
  exact found

theorem Carries.grow {id : Nat} {message} (carries : Carries before id message) : Carries after id message := by
  obtain ⟨entry, found, payload⟩ := carries
  exact ⟨entry, entry_grow extends_ found, payload⟩

theorem Foreign.grow {id : Nat} (foreign : Foreign before id) : Foreign after id := by
  obtain ⟨entry, found, payload⟩ := foreign
  exact ⟨entry, entry_grow extends_ found, payload⟩

theorem IsCopy.grow {id copy : Nat} (copied : IsCopy before id copy) : IsCopy after id copy := by
  obtain ⟨entry, found, parent⟩ := copied
  exact ⟨entry, entry_grow extends_ found, parent⟩

theorem PhaseOk.grow {acked} (more : List Nat) {phase} (fine : PhaseOk before acked phase) :
    PhaseOk after (acked ++ more) phase := by
  cases phase with
  | receiving foreign messages =>
    exact ⟨fun id member => (fine.1 id member).grow extends_, fun claim member => (fine.2 claim member).grow extends_⟩
  | acking entry => exact mem_append_left _ fine
  | adding entry message => exact Carries.grow extends_ fine
  | releasing entry =>
    obtain ⟨copy, copied⟩ := fine
    exact ⟨copy, copied.grow extends_⟩
  | _ => trivial

theorem ConsumerOk.grow {acked} (more : List Nat) {consumer} (fine : ConsumerOk before acked consumer) :
    ConsumerOk after (acked ++ more) consumer :=
  ⟨fun claimId claim found => (fine.claims claimId claim found).grow extends_, fine.phase.grow extends_ more⟩

end

section
variable {queue : StreamQueue} (kept : Kept queue)
include kept

theorem Kept.update {index consumer stream acked} (same : stream.entries = queue.stream.entries)
    (bounded : stream.Bounded) (fine : ConsumerOk stream (queue.acked ++ acked) consumer)
    (held : ∀ id message, Carries queue.stream id message → queue.stream.holds id →
      stream.holds id ∨ id ∈ queue.acked ∨ ∃ copy, IsCopy queue.stream id copy) :
    Kept (queue.update index consumer stream acked) := by
  have grows : queue.stream.entries <+: stream.entries := same ▸ prefix_refl _
  have shrinks : stream.entries <+: queue.stream.entries := same ▸ prefix_refl _
  refine ⟨bounded, ?_, ?_, ?_⟩
  · intro id copy copied
    obtain ⟨later, carries⟩ := kept.links id copy (copied.grow shrinks)
    exact ⟨later, fun message carried => (carries message (carried.grow shrinks)).grow grows⟩
  · intro other member
    obtain member | rfl := mem_or_eq_of_mem_set member
    · exact (kept.consumers other member).grow grows acked
    · exact fine
  · intro id message carries
    have settled : stream.holds id ∨ id ∈ queue.acked ∨ ∃ copy, IsCopy queue.stream id copy := by
      obtain holding | settled := kept.entries id message (carries.grow shrinks)
      · exact held id message (carries.grow shrinks) holding
      · exact .inr settled
    obtain holding | acked | ⟨copy, copied⟩ := settled
    · exact .inl holding
    · exact .inr (.inl (mem_append_left _ acked))
    · exact .inr (.inr ⟨copy, copied.grow grows⟩)

theorem Kept.settle {index consumer acked} (fine : ConsumerOk queue.stream (queue.acked ++ acked) consumer) :
    Kept (queue.update index consumer queue.stream acked) :=
  kept.update rfl kept.bounded fine fun _ _ _ holding => .inl holding

theorem Kept.member {index : Nat} {consumer} (present : queue.consumers[index]? = some consumer) :
    ConsumerOk queue.stream queue.acked consumer := kept.consumers consumer (mem_of_getElem? present)

theorem Kept.rephase {index consumer} (present : queue.consumers[index]? = some consumer) {ready phase}
    (fine : PhaseOk queue.stream queue.acked phase) :
    Kept (queue.update index ⟨consumer.pending, ready, phase⟩ queue.stream []) := by
  refine kept.settle ⟨(kept.member present).claims, ?_⟩
  rw [append_nil]
  exact fine

theorem Kept.release {index entry : Nat} {consumer} (present : queue.consumers[index]? = some consumer)
    (free : Foreign queue.stream entry ∨ entry ∈ queue.acked ∨ ∃ copy, IsCopy queue.stream entry copy) {phase}
    (fine : PhaseOk queue.stream queue.acked phase) :
    Kept (queue.update index { consumer with phase := phase } (queue.stream.ack entry) []) := by
  refine kept.update rfl (Stream.bounded_ack entry kept.bounded) ⟨(kept.member present).claims, ?_⟩ ?_
  · rw [append_nil]
    exact fine
  · intro id message carries holding
    by_cases same : id = entry
    · subst same
      obtain ⟨found, at_, none⟩ | settled := free
      · obtain ⟨other, also, some⟩ := carries
        cases at_.symm.trans also
        cases none.symm.trans some
      · exact .inr settled
    · exact .inl (Stream.holds_ack same holding)

theorem Kept.add (entry : StreamEntry)
    (copies : ∀ id, entry.parent = some id → ∃ message, entry.payload = some message ∧ Carries queue.stream id message) :
    Kept { queue with stream := queue.stream.add entry } := by
  have grows : queue.stream.entries <+: (queue.stream.add entry).entries := prefix_append _ _
  have split : ∀ {id found}, (queue.stream.add entry).entries[id]? = some found →
      queue.stream.entries[id]? = some found ∨ (id = queue.stream.entries.length ∧ found = entry) :=
    fun present => (getElem?_concat_cases present).symm
  refine ⟨Stream.bounded_add entry kept.bounded, ?_, ?_, ?_⟩
  · rintro id copy ⟨found, present, parent⟩
    obtain present | ⟨rfl, rfl⟩ := split present
    · obtain ⟨later, carries⟩ := kept.links id copy ⟨found, present, parent⟩
      refine ⟨later, fun message carried => (carries message ?_).grow grows⟩
      obtain ⟨other, there, payload⟩ := carried
      obtain there | ⟨rfl, _⟩ := split there
      · exact ⟨other, there, payload⟩
      · have below := (List.getElem?_eq_some_iff.mp present).1
        omega
    · obtain ⟨message, payload, carried⟩ := copies id parent
      obtain ⟨original, there, same⟩ := carried
      refine ⟨(List.getElem?_eq_some_iff.mp there).1, fun other carried => ⟨found, present, ?_⟩⟩
      obtain ⟨again, found_, stated⟩ := carried
      cases (entry_grow grows there).symm.trans found_
      rw [payload, ← same, stated]
  · intro consumer member
    simpa only [append_nil] using (kept.consumers consumer member).grow grows []
  · rintro id message ⟨found, present, payload⟩
    obtain present | ⟨rfl, rfl⟩ := split present
    · obtain holding | acked | ⟨copy, copied⟩ := kept.entries id message ⟨found, present, payload⟩
      · exact .inl (Stream.holds_add entry holding)
      · exact .inr (.inl acked)
      · exact .inr (.inr ⟨copy, copied.grow grows⟩)
    · exact .inl (Stream.holds_added kept.bounded found)

end

section
variable {stream : Stream StreamEntry} {read : List (Nat × StreamEntry)}
  (listed : ∀ id entry, (id, entry) ∈ read → stream.entries[id]? = some entry)
include listed

theorem foreignIds_foreign : ∀ id ∈ foreignIds read, Foreign stream id := by
  intro id member
  obtain ⟨⟨place, entry⟩, present, same⟩ := mem_filterMap.mp member
  simp only at same
  split at same
  · next bare =>
    cases same
    exact ⟨entry, listed _ _ present, isNone_iff_eq_none.mp bare⟩
  · cases same

theorem messagesOf_carried : ∀ claim ∈ messagesOf read, Carries stream claim.1 claim.2 := by
  intro claim member
  obtain ⟨⟨place, entry⟩, present, same⟩ := mem_filterMap.mp member
  obtain ⟨message, payload, rfl⟩ := map_eq_some_iff.mp same
  exact ⟨entry, listed _ _ present, payload⟩

end

section
variable {queue : StreamQueue} {index : Nat} {consumer : StreamConsumer} (kept : Kept queue)
  (present : queue.consumers[index]? = some consumer)
include kept present

theorem Kept.command {fromEnd idle next stream}
    (ran : consumer.command fromEnd idle queue.stream = some (next, stream)) :
    Kept (queue.update index next stream []) := by
  have fine := kept.member present
  simp only [StreamConsumer.command] at ran
  cases phase : consumer.phase with
  | creating read =>
    simp only [phase, Option.some.injEq, Prod.mk.injEq] at ran
    obtain ⟨rfl, rfl⟩ := ran
    refine kept.update (Stream.entries_createGroup fromEnd) (Stream.bounded_createGroup fromEnd kept.bounded) ⟨?_, ?_⟩ ?_
    · intro claimId claim found
      exact (fine.claims claimId claim found).grow (Stream.entries_createGroup fromEnd ▸ prefix_refl _)
    · cases read <;> trivial
    · rintro id message ⟨entry, there, _⟩ holding
      exact .inl (Stream.holds_createGroup fromEnd (List.getElem?_eq_some_iff.mp there).1 holding)
  | reading count =>
    simp only [phase] at ran
    obtain ⟨⟨read, after⟩, received, same⟩ := map_eq_some_iff.mp ran
    cases same
    obtain ⟨entries, bounded, holding, listed⟩ := Stream.readGroup_spec received kept.bounded
    have grows : queue.stream.entries <+: after.entries := entries ▸ prefix_refl _
    refine kept.update entries bounded ⟨?_, ?_, ?_⟩ fun id _ _ held => .inl (holding id held)
    · exact fun claimId claim found => (fine.claims claimId claim found).grow grows
    · exact fun id member => (foreignIds_foreign listed id member).grow grows
    · exact fun claim member => (messagesOf_carried listed claim member).grow grows
  | autoclaiming =>
    simp only [phase] at ran
    split at ran
    · cases ran
      refine kept.rephase present ⟨fun _ member => (nomatch member), messagesOf_carried ?_⟩
      intro id entry member
      obtain ⟨place, _, found⟩ := mem_filterMap.mp member
      obtain ⟨_, there, same⟩ := map_eq_some_iff.mp found
      cases same
      exact there
    · cases ran
  | receiving foreign messages =>
    have held := fine.phase
    rw [phase] at held
    cases foreign with
    | nil => simp [phase] at ran
    | cons id rest =>
      simp only [phase, Option.some.injEq, Prod.mk.injEq] at ran
      obtain ⟨rfl, rfl⟩ := ran
      exact kept.release present (.inl (held.1 id mem_cons_self))
        ⟨fun other member => held.1 other (mem_cons_of_mem _ member), held.2⟩
  | acking entry =>
    have held := fine.phase
    rw [phase] at held
    simp only [phase, Option.some.injEq, Prod.mk.injEq] at ran
    obtain ⟨rfl, rfl⟩ := ran
    exact kept.release present (.inr (.inl held)) trivial
  | adding entry message =>
    have held := fine.phase
    rw [phase] at held
    simp only [phase, Option.some.injEq, Prod.mk.injEq] at ran
    obtain ⟨rfl, rfl⟩ := ran
    have added := kept.add ⟨some message, some entry⟩ fun id parent => ⟨message, rfl, by cases parent; exact held⟩
    refine added.rephase present ⟨queue.stream.entries.length, ⟨some message, some entry⟩, ?_, rfl⟩
    simp [Stream.add]
  | releasing entry =>
    have held := fine.phase
    rw [phase] at held
    simp only [phase, Option.some.injEq, Prod.mk.injEq] at ran
    obtain ⟨rfl, rfl⟩ := ran
    exact kept.release present (.inr (.inr held)) trivial
  | idle => simp [phase] at ran

theorem Kept.finish {claimIds next} (ran : consumer.finish claimIds = some next) :
    Kept (queue.update index next queue.stream []) := by
  have fine := kept.member present
  have held := fine.phase
  simp only [StreamConsumer.finish] at ran
  split at ran
  · next messages phase =>
    rw [phase] at held
    split at ran
    · cases ran
      refine kept.settle ⟨fun claimId claim found => ?_, trivial⟩
      obtain earlier | member := lookup_foldl_insert found
      · exact fine.claims claimId claim earlier
      · obtain ⟨pair, zipped, rfl⟩ := mem_map.mp member
        exact held.2 pair.2 (of_mem_zip zipped).2
    · cases ran
  · cases ran

theorem Kept.forget {claimId acked phase} (fine : PhaseOk queue.stream (queue.acked ++ acked) phase) :
    Kept (queue.update index ⟨consumer.pending.erase claimId, consumer.groupReady, phase⟩ queue.stream acked) := by
  refine kept.settle ⟨fun other claim found => ?_, fine⟩
  exact (kept.member present).claims other claim (lookup_erase_cases found).2

end

theorem Kept.step {fromEnd queue next} {event : StreamEvent} (kept : Kept queue)
    (stepped : queue.step fromEnd event = some next) : Kept next := by
  cases event with
  | produce message =>
    cases stepped
    exact kept.add _ fun _ parent => by cases parent
  | foreign =>
    cases stepped
    exact kept.add _ fun _ parent => by cases parent
  | claimBatch index max =>
    obtain ⟨consumer, present, stepped⟩ := bind_eq_some_iff.mp stepped
    split at stepped
    · cases stepped
    · split at stepped
      · cases stepped
        exact kept
      · cases stepped
        refine kept.rephase present ?_
        split <;> trivial
  | claimStale index =>
    obtain ⟨consumer, present, stepped⟩ := bind_eq_some_iff.mp stepped
    split at stepped
    · cases stepped
    · cases stepped
      refine kept.rephase present ?_
      split <;> trivial
  | ack index claimId =>
    obtain ⟨consumer, present, stepped⟩ := bind_eq_some_iff.mp stepped
    split at stepped
    · cases stepped
    · split at stepped
      · cases stepped
        exact kept
      · next entry message found =>
        cases stepped
        exact kept.forget present (mem_append_right _ (mem_singleton_self entry))
  | nack index claimId =>
    obtain ⟨consumer, present, stepped⟩ := bind_eq_some_iff.mp stepped
    split at stepped
    · cases stepped
    · split at stepped
      · cases stepped
        exact kept
      · next entry message found =>
        cases stepped
        exact kept.forget present ((kept.member present).claims claimId _ found)
  | command index idle =>
    obtain ⟨consumer, present, stepped⟩ := bind_eq_some_iff.mp stepped
    obtain ⟨⟨after, stream⟩, ran, moved⟩ := bind_eq_some_iff.mp stepped
    cases moved
    exact kept.command present ran
  | ignore index =>
    obtain ⟨consumer, present, stepped⟩ := bind_eq_some_iff.mp stepped
    have held := (kept.member present).phase
    split at stepped
    · next id foreign messages phase =>
      cases stepped
      rw [phase] at held
      exact kept.rephase present ⟨fun other member => held.1 other (mem_cons_of_mem _ member), held.2⟩
    · cases stepped
  | finish index claimIds =>
    obtain ⟨consumer, present, stepped⟩ := bind_eq_some_iff.mp stepped
    obtain ⟨after, ran, moved⟩ := bind_eq_some_iff.mp stepped
    cases moved
    exact kept.finish present ran
  | fail index =>
    obtain ⟨consumer, present, moved⟩ := bind_eq_some_iff.mp stepped
    cases moved
    exact kept.rephase present trivial
  | crash index =>
    obtain ⟨consumer, present, moved⟩ := bind_eq_some_iff.mp stepped
    cases moved
    exact kept.settle ⟨fun _ _ found => (nomatch found), trivial⟩

theorem Kept.settled {queue} (kept : Kept queue) {id message} (carries : Carries queue.stream id message) :
    ∃ last, Relation.ReflTransGen (IsCopy queue.stream) id last ∧ Carries queue.stream last message ∧
      (queue.stream.holds last ∨ last ∈ queue.acked) := by
  have inside : id < queue.stream.entries.length := by
    obtain ⟨entry, found, _⟩ := carries
    exact (List.getElem?_eq_some_iff.mp found).1
  generalize room : queue.stream.entries.length - id = left
  induction left using Nat.strong_induction_on generalizing id with
  | _ left ih =>
    obtain holding | acked | ⟨copy, copied⟩ := kept.entries id message carries
    · exact ⟨id, .refl, carries, .inl holding⟩
    · exact ⟨id, .refl, carries, .inr acked⟩
    · obtain ⟨later, same⟩ := kept.links id copy copied
      have below : copy < queue.stream.entries.length := by
        obtain ⟨entry, found, _⟩ := copied
        exact (List.getElem?_eq_some_iff.mp found).1
      obtain ⟨last, chain, carried, settled⟩ := ih (queue.stream.entries.length - copy) (by omega) (same message carries) below rfl
      exact ⟨last, .head copied chain, carried, settled⟩

/-- In every run, every message of the stream, or a copy of it that a `nack`
re-added, is not yet delivered, pending, or was acknowledged by a client. -/
theorem redis_queue_at_least_once {fromEnd : Bool} {consumers : Nat} {events : List StreamEvent} {queue : StreamQueue}
    (ran : run (StreamQueue.step fromEnd) (StreamQueue.init consumers) events = some queue)
    {id : Nat} {message : EMessage} (added : Carries queue.stream id message) :
    ∃ last, Relation.ReflTransGen (IsCopy queue.stream) id last ∧ Carries queue.stream last message ∧
      (queue.stream.isUnread last ∨ queue.stream.isPending last ∨ last ∈ queue.acked) := by
  have kept : Kept queue := run_preserves Kept Kept.step (Kept.init consumers) ran
  obtain ⟨last, chain, carries, (unread | pending) | acked⟩ := kept.settled added
  · exact ⟨last, chain, carries, .inl unread⟩
  · exact ⟨last, chain, carries, .inr (.inl pending)⟩
  · exact ⟨last, chain, carries, .inr (.inr acked)⟩

private def sent : EMessage := EMessage.new "m" 0 "t" [] .standard none

/-- A consumer crashes between the two commands of its `nack`; another one takes
over the stale claim and acknowledges it. -/
private def crashedNack : List StreamEvent :=
  [.produce sent, .claimBatch 0 1, .command 0 [], .command 0 [], .finish 0 ["a"], .nack 0 "a", .command 0 [], .crash 0,
    .claimStale 1, .command 1 [], .command 1 [0], .finish 1 ["b"], .ack 1 "b", .command 1 []]

theorem crashed_nack_still_delivered :
    ∃ queue ∈ run (StreamQueue.step false) (StreamQueue.init 2) crashedNack, ∃ last,
      Relation.ReflTransGen (IsCopy queue.stream) 0 last ∧ Carries queue.stream last sent ∧
        (queue.stream.isUnread last ∨ queue.stream.isPending last ∨ last ∈ queue.acked) := by
  obtain ⟨queue, ran, added⟩ : ∃ queue ∈ run (StreamQueue.step false) (StreamQueue.init 2) crashedNack,
      queue.stream.entries[0]? = some ⟨some sent, none⟩ := by decide +kernel
  exact ⟨queue, ran, redis_queue_at_least_once ran ⟨_, added, rfl⟩⟩

end EventBase.Proofs.StreamDelivery
