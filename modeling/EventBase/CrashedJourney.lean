import EventBase.LoggedWork
import EventBase.Redelivery

/-! A message is appended and sent, it is handled for a while, and the process crashes.
What the WAL then has of it is replayed. -/

namespace EventBase
open Foundations

namespace DelayStore

/-- `WalSyncHandler` on the reports among the effects, in order. `placeholder` is the
message the memory backend makes up for an unknown id. -/
def report (backend : WalBackend) (placeholder : EMessage) (store : DelayStore) (effects : List Effect) : DelayStore :=
  effects.foldl (fun store effect => match effect with
    | .walSync sync => store.updateState backend sync.messageId sync.status placeholder
    | _ => store) store

/-- The WAL of the next process. The handler has flushed it after the last report. -/
def restart (backend : WalBackend) : DelayStore → DelayStore
  | .inProcess store => .inProcess (backend.openWal (backend.flush store true none))
  | .redis store => .redis store

end DelayStore

/-- Where the send of a message puts it on its topic. -/
def Journey.send (env : Env) (msg : EMessage) (trySend : Option Bool) (timeout : Option Duration) : Journey where
  places := (TopicRouter.send env msg.topic msg trySend timeout).outcome.1.filterMap (arrival msg.topic)

/-- What became of a message and its copies from its send to the crash. -/
structure CrashedJourney (msg : EMessage) where
  env : Env
  trySend : Option Bool
  timeout : Option Duration
  events : List JourneyEvent
  journey : Journey
  ran : run (Journey.step msg.topic) (Journey.send env msg trySend timeout) events = some journey

namespace CrashedJourney
variable {msg : EMessage}

def handled (crashed : CrashedJourney msg) : List Handling := crashed.journey.handled

/-- The WAL of the next process: the message was appended, and its reports have arrived. -/
def recovered (crashed : CrashedJourney msg) (backend : WalBackend) (placeholder : EMessage) (wal : DelayStore) : DelayStore :=
  ((wal.append (WalRecord.fromMsg msg)).report backend placeholder (crashed.handled.flatMap Handling.effects)).restart backend

end CrashedJourney

/-- What `replay` hands on when it comes to the record under the id. -/
def TopicRouter.resent (env : Env) (wal : DelayStore) (messageId : String) : List EMessage :=
  match wal.records.lookup messageId with
  | some record =>
    if record.status = .pending then (TopicRouter.replayRecord env {} record).outcome.1.filterMap Effect.handed else []
  | none => []

end EventBase
