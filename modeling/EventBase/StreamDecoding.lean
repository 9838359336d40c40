import EventBase.MemoryQueue
import EventBase.RedisStream

/-! What a Redis stream consumer makes of the raw entries of one reply. `read_group`
stops at the first payload that does not decode, `claim_stale` passes over it. -/

namespace EventBase

/-- An entry as the server returns it; without the payload field it is foreign. -/
structure RawEntry where
  id : String
  payload : Option (List UInt8)
  deriving DecidableEq, Repr

/-- How bincode reads an envelope, with its own error text. -/
abbrev Codec := List UInt8 → Except String EMessage

/-- The error is the detail of an `Unsupported`. -/
def EMessage.checkWireVersion (msg : EMessage) : Except String Unit :=
  if currentSchemaVersion < msg.version then
    .error ("message " ++ msg.id ++ " uses wire version " ++ toString msg.version.toNat ++ ", this node speaks " ++
      toString currentSchemaVersion.toNat)
  else .ok ()

def decodeMsg (codec : Codec) (bytes : List UInt8) : Except CoreError EMessage :=
  match codec bytes with
  | .error detail => .error (.queue (.receive ("decode failed: " ++ detail)))
  | .ok msg =>
    match msg.checkWireVersion with
    | .error detail => .error (.queue (.receive ("Unsupported: " ++ detail)))
    | .ok () => .ok msg

/-- The loop of `read_group` over a reply. The first part lists the foreign entries
it acknowledges on its way. -/
def readEntries (codec : Codec) : List RawEntry → List String × Except CoreError (List (String × EMessage))
  | [] => ([], .ok [])
  | entry :: rest =>
    match entry.payload with
    | none =>
      let (acked, result) := readEntries codec rest
      (entry.id :: acked, result)
    | some bytes =>
      match decodeMsg codec bytes with
      | .error error => ([], .error error)
      | .ok msg =>
        let (acked, result) := readEntries codec rest
        (acked, result.map fun messages => (entry.id, msg) :: messages)

/-- The loop of `claim_stale`. A foreign entry is skipped, one that does not decode
is acknowledged. -/
def staleEntries (codec : Codec) : List RawEntry → List String × List (String × EMessage)
  | [] => ([], [])
  | entry :: rest =>
    let (acked, messages) := staleEntries codec rest
    match entry.payload with
    | none => (acked, messages)
    | some bytes =>
      match decodeMsg codec bytes with
      | .error _ => (entry.id :: acked, messages)
      | .ok msg => (acked, (entry.id, msg) :: messages)

/-- The consumer's claims under way; `claims` counts the claim ids generated so far. -/
structure ClaimMap where
  pending : Table (String × EMessage) := ∅
  claims : Nat := 0

namespace ClaimMap
variable (codec : Codec) (uuid : Nat → String) (now : SystemTime)

def addClaims : List (String × EMessage) → ClaimMap → List (ClaimedMessage EMessage) × ClaimMap
  | [], map => ([], map)
  | (entryId, msg) :: rest, map =>
    let claimId := uuid map.claims
    let (batch, after) := addClaims rest ⟨map.pending.insert claimId (entryId, msg), map.claims + 1⟩
    (⟨msg, claimId, now⟩ :: batch, after)

/-- `claim_batch` of at least one message, given the reply to its `XREADGROUP`. -/
def claimBatch (reply : List RawEntry) (map : ClaimMap) : Except CoreError (List (ClaimedMessage EMessage)) × ClaimMap :=
  match (readEntries codec reply).2 with
  | .error error => (.error error, map)
  | .ok messages =>
    let (batch, after) := map.addClaims uuid now messages
    (.ok batch, after)

/-- `claim_stale`, given the reply to its `XAUTOCLAIM`. -/
def claimStale (reply : List RawEntry) (map : ClaimMap) : Except CoreError (List (ClaimedMessage EMessage)) × ClaimMap :=
  let (batch, after) := map.addClaims uuid now (staleEntries codec reply).2
  (.ok batch, after)

end ClaimMap

end EventBase
