import EventBase.StreamDecoding

/-! A payload that does not decode costs the whole batch its claims. A batch without
one is claimed completely, and the sweep for stale entries passes over it. -/

namespace EventBase.Proofs.UndecodableEntries
open List

section
variable (codec : Codec)

def Decodes (entry : RawEntry) (msg : EMessage) : Prop :=
  ∃ bytes, entry.payload = some bytes ∧ decodeMsg codec bytes = .ok msg

def Undecodable (entry : RawEntry) : Prop :=
  ∃ bytes error, entry.payload = some bytes ∧ decodeMsg codec bytes = .error error

def carried (entry : RawEntry) : Option (String × EMessage) :=
  match entry.payload with
  | none => none
  | some bytes =>
    match decodeMsg codec bytes with
    | .error _ => none
    | .ok msg => some (entry.id, msg)

theorem carried_of_decodes {entry msg} (decodes : Decodes codec entry msg) :
    carried codec entry = some (entry.id, msg) := by
  obtain ⟨bytes, payload, decoded⟩ := decodes
  simp only [carried, payload, decoded]

theorem readEntries_whole {reply} (readable : ∀ entry ∈ reply, ¬ Undecodable codec entry) :
    (readEntries codec reply).2 = .ok (reply.filterMap (carried codec)) := by
  induction reply with
  | nil => rfl
  | cons entry rest ih =>
    have remaining := ih fun other member => readable other (mem_cons_of_mem _ member)
    cases payload : entry.payload with
    | none => simp [readEntries, carried, payload, remaining]
    | some bytes =>
      cases decoded : decodeMsg codec bytes with
      | error error => exact absurd ⟨bytes, error, payload, decoded⟩ (readable entry mem_cons_self)
      | ok msg => simp [readEntries, carried, payload, decoded, remaining, Except.map]

theorem readEntries_stops {reply bad} (member : bad ∈ reply) (undecodable : Undecodable codec bad) :
    ∃ error, (readEntries codec reply).2 = .error error := by
  induction reply with
  | nil => cases member
  | cons entry rest ih =>
    cases payload : entry.payload with
    | none =>
      obtain rfl | later := mem_cons.mp member
      · obtain ⟨bytes, _, present, _⟩ := undecodable
        rw [payload] at present
        cases present
      · obtain ⟨error, stopped⟩ := ih later
        exact ⟨error, by simp [readEntries, payload, stopped]⟩
    | some bytes =>
      cases decoded : decodeMsg codec bytes with
      | error error => exact ⟨error, by simp [readEntries, payload, decoded]⟩
      | ok msg =>
        obtain rfl | later := mem_cons.mp member
        · obtain ⟨other, _, present, failed⟩ := undecodable
          rw [payload] at present
          cases present
          rw [decoded] at failed
          cases failed
        · obtain ⟨error, stopped⟩ := ih later
          exact ⟨error, by simp [readEntries, payload, decoded, stopped, Except.map]⟩

theorem staleEntries_whole (reply : List RawEntry) : (staleEntries codec reply).2 = reply.filterMap (carried codec) := by
  induction reply with
  | nil => rfl
  | cons entry rest ih =>
    cases payload : entry.payload with
    | none => simp [staleEntries, carried, payload, ih]
    | some bytes => cases decoded : decodeMsg codec bytes <;> simp [staleEntries, carried, payload, decoded, ih]

end

section
variable {codec : Codec} {encode : EMessage → List UInt8} (name : Nat → String)

def raw (encode : EMessage → List UInt8) (entry : Nat × StreamEntry) : RawEntry := ⟨name entry.1, entry.2.payload.map encode⟩

/-- Where every payload decodes to what was sent, the loop is the read of the stream model. -/
theorem readEntries_raw {read : List (Nat × StreamEntry)}
    (decodes : ∀ entry ∈ read, ∀ msg ∈ entry.2.payload, decodeMsg codec (encode msg) = .ok msg) :
    readEntries codec (read.map (raw name encode)) =
      ((foreignIds read).map name, .ok ((messagesOf read).map fun claim => (name claim.1, claim.2))) := by
  induction read with
  | nil => rfl
  | cons entry rest ih =>
    have later := ih fun other member => decodes other (mem_cons_of_mem _ member)
    have first := decodes entry mem_cons_self
    obtain ⟨id, ⟨payload, parent⟩⟩ := entry
    cases payload with
    | none =>
      simp only [map_cons, readEntries, raw, Option.map_none, later]
      simp [foreignIds, messagesOf]
    | some msg =>
      simp only [map_cons, readEntries, raw, Option.map_some, first msg rfl, later]
      simp [foreignIds, messagesOf, Except.map]

end

section
variable {uuid : Nat → String} {now : SystemTime}

theorem addClaims_keeps (distinct : uuid.Injective) (messages : List (String × EMessage)) {map : ClaimMap} {index}
    (older : index < map.claims) :
    (map.addClaims uuid now messages).2.pending.lookup (uuid index) = map.pending.lookup (uuid index) := by
  induction messages generalizing map with
  | nil => rfl
  | cons claim rest ih =>
    obtain ⟨entryId, msg⟩ := claim
    have fresh : uuid index ≠ uuid map.claims := fun same => older.ne (distinct same)
    simp only [ClaimMap.addClaims]
    rw [ih (Nat.lt_succ_of_lt older), AList.lookup_insert_ne fresh]

theorem addClaims_claims (distinct : uuid.Injective) {messages} {map : ClaimMap} {entryId msg}
    (member : (entryId, msg) ∈ messages) :
    ∃ claim ∈ (map.addClaims uuid now messages).1, claim.message = msg ∧
      (map.addClaims uuid now messages).2.pending.lookup claim.claimId = some (entryId, msg) := by
  induction messages generalizing map with
  | nil => cases member
  | cons first rest ih =>
    obtain ⟨firstId, firstMsg⟩ := first
    obtain same | later := mem_cons.mp member
    · cases same
      refine ⟨_, mem_cons_self, rfl, ?_⟩
      simp only [ClaimMap.addClaims]
      rw [addClaims_keeps distinct rest (Nat.lt_succ_self _), AList.lookup_insert]
    · obtain ⟨claim, listed, carries, held⟩ := ih later
      exact ⟨claim, mem_cons_of_mem _ listed, carries, held⟩

end

section
variable (codec : Codec)

/-- Every decodable message of the reply is claimed and can be acked or nacked. -/
def Served (reply : List RawEntry) (outcome : Except CoreError (List (ClaimedMessage EMessage)) × ClaimMap) : Prop :=
  ∀ entry ∈ reply, ∀ msg, Decodes codec entry msg → ∃ batch, outcome.1 = .ok batch ∧
    ∃ claim ∈ batch, claim.message = msg ∧ outcome.2.pending.lookup claim.claimId = some (entry.id, msg)

variable {codec} {uuid : Nat → String} {now : SystemTime} {reply : List RawEntry} {map : ClaimMap}

theorem served_of_carried (distinct : uuid.Injective) :
    Served codec reply (.ok (map.addClaims uuid now (reply.filterMap (carried codec))).1,
      (map.addClaims uuid now (reply.filterMap (carried codec))).2) := by
  intro entry member msg decodes
  have listed : (entry.id, msg) ∈ reply.filterMap (carried codec) :=
    mem_filterMap.mpr ⟨entry, member, carried_of_decodes codec decodes⟩
  exact ⟨_, rfl, addClaims_claims distinct listed⟩

/-- `claim_stale` always succeeds, and serves whatever it can decode. -/
theorem claimStale_served (distinct : uuid.Injective) :
    (∃ batch, (map.claimStale codec uuid now reply).1 = .ok batch) ∧ Served codec reply (map.claimStale codec uuid now reply) := by
  refine ⟨⟨_, rfl⟩, ?_⟩
  simp only [ClaimMap.claimStale, staleEntries_whole]
  exact served_of_carried distinct

theorem claimBatch_stops (uuid : Nat → String) (now : SystemTime) (map : ClaimMap) {bad} (member : bad ∈ reply)
    (undecodable : Undecodable codec bad) : ∃ error, map.claimBatch codec uuid now reply = (.error error, map) := by
  obtain ⟨error, stopped⟩ := readEntries_stops codec member undecodable
  exact ⟨error, by simp only [ClaimMap.claimBatch, stopped]⟩

end

/-- A batch gets all its claims exactly when it holds nothing undecodable, or nothing else. -/
theorem batch_served_iff {codec : Codec} {uuid : Nat → String} (distinct : uuid.Injective) (now : SystemTime)
    (reply : List RawEntry) (map : ClaimMap) :
    Served codec reply (map.claimBatch codec uuid now reply) ↔
      (∀ entry ∈ reply, ¬ Undecodable codec entry) ∨ ∀ entry ∈ reply, ∀ msg, ¬ Decodes codec entry msg := by
  constructor
  · intro served
    by_cases readable : ∀ entry ∈ reply, ¬ Undecodable codec entry
    · exact .inl readable
    · right
      push Not at readable
      obtain ⟨bad, member, undecodable⟩ := readable
      obtain ⟨error, stopped⟩ := claimBatch_stops uuid now map member undecodable
      intro entry listed msg decodes
      obtain ⟨batch, returned, _⟩ := served entry listed msg decodes
      rw [stopped] at returned
      cases returned
  · rintro (readable | nothing)
    · simp only [ClaimMap.claimBatch, readEntries_whole codec readable]
      exact served_of_carried distinct
    · intro entry member msg decodes
      exact absurd decodes (nothing entry member msg)

private def parcel (id : String) (version : UInt32) : EMessage :=
  { EMessage.new id 0 "orders" [] .standard none with version }

private def ledgerCodec : Codec
  | [0] => .ok (parcel "a" 0)
  | [1] => .ok (parcel "b" 1)
  | _ => .error "unexpected end"

private def claimNames (made : Nat) : String := String.ofList (List.replicate made 'c')

private theorem claimNames_distinct : claimNames.Injective := by
  intro first second same
  simpa [claimNames] using congrArg (fun text => text.toList.length) same

theorem foreign_entry_passed_over :
    Served ledgerCodec [⟨"1-0", none⟩, ⟨"2-0", some [0]⟩] (({} : ClaimMap).claimBatch ledgerCodec claimNames 0
      [⟨"1-0", none⟩, ⟨"2-0", some [0]⟩]) ∧ Decodes ledgerCodec ⟨"2-0", some [0]⟩ (parcel "a" 0) := by
  have decoded : decodeMsg ledgerCodec [0] = .ok (parcel "a" 0) := rfl
  refine ⟨(batch_served_iff claimNames_distinct 0 _ _).mpr (.inl ?_), [0], rfl, decoded⟩
  rintro entry member ⟨bytes, error, payload, failed⟩
  simp only [mem_cons, not_mem_nil, or_false] at member
  obtain rfl | rfl := member
  · cases payload
  · cases payload
    rw [decoded] at failed
    cases failed

/-- The newer message is the last of its batch, and the one before it is not claimed. -/
theorem newer_message_holds_back :
    Decodes ledgerCodec ⟨"1-0", some [0]⟩ (parcel "a" 0) ∧
      ¬ Served ledgerCodec [⟨"1-0", some [0]⟩, ⟨"2-0", some [1]⟩]
        (({} : ClaimMap).claimBatch ledgerCodec claimNames 0 [⟨"1-0", some [0]⟩, ⟨"2-0", some [1]⟩]) := by
  refine ⟨⟨[0], rfl, rfl⟩, fun served => ?_⟩
  obtain ⟨batch, returned, _⟩ := served ⟨"1-0", some [0]⟩ mem_cons_self (parcel "a" 0) ⟨[0], rfl, rfl⟩
  cases returned

theorem newer_message_passed_over :
    ∃ batch, (({} : ClaimMap).claimStale ledgerCodec claimNames 0 [⟨"1-0", some [0]⟩, ⟨"2-0", some [1]⟩]).1 = .ok batch ∧
      ∃ claim ∈ batch, claim.message = parcel "a" 0 :=
  have ⟨_, served⟩ := claimStale_served claimNames_distinct
  have ⟨batch, returned, claim, listed, carries, _⟩ := served _ mem_cons_self _ ⟨[0], rfl, rfl⟩
  ⟨batch, returned, claim, listed, carries⟩

theorem current_message_read :
    readEntries ledgerCodec [⟨"", none⟩, ⟨"c", some [0]⟩] = ([""], .ok [("c", parcel "a" 0)]) := by
  refine @readEntries_raw ledgerCodec (fun _ => [0]) claimNames [(0, ⟨none, none⟩), (1, ⟨some (parcel "a" 0), none⟩)] ?_
  rintro entry member msg payload
  obtain rfl | member := mem_cons.mp member
  · cases payload
  · cases mem_singleton.mp member
    cases payload
    rfl

end EventBase.Proofs.UndecodableEntries
