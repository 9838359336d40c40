import EventBase.Wal

/-! The handler of `_system.wal_sync` on a file-backed WAL. The payload codec is
an argument. -/

namespace EventBase

/-- A handle's memory and the file it was opened on. -/
structure PersistentHandle where
  store : WalStore
  file : Option WalStore
  deriving DecidableEq

namespace WalSyncHandler

/-- `WalSyncHandler::handler`. Both steps run under one write guard. An update of
an unknown record and a failed flush are only logged. -/
def handler (decode : List UInt8 → Option WalSyncMessage) (flushes : Bool) (handle : PersistentHandle)
    (msg : EMessage) : PersistentHandle × Ack :=
  match decode msg.payload with
  | none => (handle, .ack)
  | some sync =>
    let store := PersistentWal.apply handle.store (.updateState sync.messageId sync.status)
    (⟨store, if flushes then PersistentWal.flush store else handle.file⟩, .ack)

/-- The system workers' calls in the order in which they take the write guard,
each with whether its flush succeeds. -/
def handleAll (decode : List UInt8 → Option WalSyncMessage) (handle : PersistentHandle)
    (calls : List (EMessage × Bool)) : PersistentHandle :=
  calls.foldl (fun handle call => (handler decode call.2 handle call.1).1) handle

end WalSyncHandler

end EventBase
