import EventBase.Wal

/-! Sequences of calls on a `MemoryWal`, with what was passed to `append` and to
`schedule` on the way. -/

namespace EventBase

/-- `uuid` and `createdAt` are what `EMessage::new` draws for a placeholder. -/
inductive MemoryCall where
  | append (record : WalRecord)
  | updateState (messageId : String) (status : WalRecordState) (uuid : String) (createdAt : SystemTime)
  | schedule (record : WalRecord)
  | fetchReady (now : SystemTime)
  | removeScheduled (messageId : String)

structure MemoryHistory where
  store : WalStore := .empty
  appended : List EMessage := []
  scheduled : List EMessage := []

/-- The message `update_state` makes up for an unknown id. -/
def MemoryWal.placeholder (uuid : String) (createdAt : SystemTime) : EMessage := EMessage.new uuid createdAt "" [] .standard none

/-- A new UUID is not the id the call was given. -/
def MemoryHistory.step (history : MemoryHistory) : MemoryCall → Option MemoryHistory
  | .append record =>
    some { history with store := history.store.append record, appended := history.appended ++ [record.message] }
  | .updateState messageId status uuid createdAt =>
    if uuid = messageId then none
    else some { history with
      store := MemoryWal.updateState history.store messageId status (MemoryWal.placeholder uuid createdAt) }
  | .schedule record =>
    some { history with store := history.store.schedule record, scheduled := history.scheduled ++ [record.message] }
  | .fetchReady now => some { history with store := (history.store.fetchReady now).2 }
  | .removeScheduled messageId => some { history with store := history.store.removeScheduled messageId }

end EventBase
