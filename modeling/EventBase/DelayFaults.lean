import EventBase.RedisDelays

/-! `RedisWal::fetch_ready` on a server whose commands can fail, before or after they
took effect, and whose payloads need not decode. -/

namespace EventBase
open Foundations

/-- What stands in the payload hash. -/
inductive DelayPayload where
  | encoded (record : WalRecord)
  | undecodable (detail : String)
  deriving DecidableEq

/-- The keys `delays` and `delay_index` of one prefix. -/
structure DelayKeys where
  delays : Table DelayPayload
  delayIndex : Table Int
  deriving DecidableEq

/-- What `ZRANGEBYSCORE -inf now` returns. -/
def DelayKeys.dueIds (keys : DelayKeys) (now : SystemTime) : List String :=
  keysWhere keys.delayIndex (fun indexed => indexed ≤ score (nowMillis now))

/-- A command that fails; `applied` tells whether the server had executed it. -/
structure CommandFault where
  applied : Bool
  detail : String
  deriving DecidableEq

/-- The n-th command is answered by `faults n`. -/
abbrev Faults := Nat → Option CommandFault

structure DelaySession where
  keys : DelayKeys
  commands : Nat := 0

abbrev DelayM := EStateM CoreError DelaySession

namespace FaultyRedis
variable (faults : Faults)

/-- One command: its reply and its effect on the keys. -/
def command {α : Type} (reply : DelayKeys → α) (effect : DelayKeys → DelayKeys) : DelayM α := do
  let session ← get
  match faults session.commands with
  | none =>
    set { session with keys := effect session.keys, commands := session.commands + 1 }
    return reply session.keys
  | some fault =>
    set { session with
      keys := if fault.applied then effect session.keys else session.keys
      commands := session.commands + 1 }
    throw (.wal (.backend fault.detail))

def zrangebyscore (now : SystemTime) : DelayM (List String) := command faults (fun keys => keys.dueIds now) id

def zrem (messageId : String) : DelayM Bool :=
  command faults (fun keys => decide (messageId ∈ keys.delayIndex))
    (fun keys => { keys with delayIndex := keys.delayIndex.erase messageId })

def hget (messageId : String) : DelayM (Option DelayPayload) := command faults (fun keys => keys.delays.lookup messageId) id

def hdel (messageId : String) : DelayM Unit :=
  command faults (fun _ => ()) (fun keys => { keys with delays := keys.delays.erase messageId })

def decode : DelayPayload → Except CoreError WalRecord
  | .encoded record => .ok record
  | .undecodable detail => .error (.wal (.corrupted ("fetch_ready: " ++ detail)))

/-- The payload of a claimed id, which is read and deleted. -/
def takePayload (messageId : String) : DelayM (List WalRecord) := do
  let bytes ← hget faults messageId
  hdel faults messageId
  match bytes with
  | some payload =>
    match decode payload with
    | .ok record => return [record]
    | .error error => throw error
  | none => return []

/-- The loop body of `fetch_ready`, with what it adds to `ready`. -/
def claimDue (messageId : String) : DelayM (List WalRecord) := do
  let claimed ← zrem faults messageId
  if claimed then takePayload faults messageId else return []

def claimAll (ready : List WalRecord) : List String → DelayM (List WalRecord)
  | [] => return ready
  | messageId :: rest => do
    let claimed ← claimDue faults messageId
    claimAll (ready ++ claimed) rest

/-- `RedisWal::fetch_ready`. -/
def fetchReady (now : SystemTime) : DelayM (List WalRecord) := do
  let due ← zrangebyscore faults now
  claimAll faults [] due

end FaultyRedis

end EventBase
