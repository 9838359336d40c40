import EventBase.WalLocks

/-! Clones of one `PersistentWal`, with the file. A flush reads the four parts one after
the other and writes what it has read to the file when it has given the locks back; a
restart opens the file again. -/

namespace EventBase
open Foundations FairLock NestedLocks

/-- What the clones share, and what the running flushes have read. -/
structure FlushData where
  store : WalStore := .empty
  snapshots : List WalStore := []

namespace FlushData

def onStore (update : WalStore → WalStore) (data : FlushData) : FlushData := { data with store := update data.store }

def keep (snapshot : WalStore) (data : FlushData) : FlushData := { data with snapshots := data.snapshots ++ [snapshot] }

def lift : WalCode → Code WalLock FlushData
  | .done => .done
  | .acquire lock mode update inside => .acquire lock mode (onStore update) fun data => lift (inside data.store)
  | .release lock rest => .release lock (lift rest)

end FlushData

/-- `PersistentWal::flush` up to the write. -/
def PersistentWal.flushCode : Code WalLock FlushData :=
  .acquire .records .read id fun first =>
    .acquire .delays .read id fun second =>
      .acquire .workerRegistry .read id fun third =>
        .guard .idCounter .write
          (fun data => data.keep
            { records := first.store.records
              delays := second.store.delays
              workerRegistry := third.store.workerRegistry
              idCounter := data.store.idCounter })
          fun _ => .release .workerRegistry (.release .delays (.release .records .done))

def PersistentWal.callCode : WalMethod → Code WalLock FlushData
  | .flush => PersistentWal.flushCode
  | method => FlushData.lift (method.code .persistent)

structure WalClones where
  system : NestedLocks.System WalLock FlushData := { data := {} }
  file : Option WalStore := none

/-- `written` is the rename at the end of a flush; a flush that fails never comes to it. -/
inductive CloneEvent where
  | call (method : WalMethod)
  | step (task : Nat)
  | written (snapshot : Nat)
  | restart

namespace WalClones

/-- A handle with this content, no call on it running. -/
def idle (store : WalStore) (file : Option WalStore) : WalClones where
  system := { data := { store } }
  file := file

def step (clones : WalClones) : CloneEvent → Option WalClones
  | .call method =>
    some { clones with
      system := { clones.system with codes := clones.system.codes ++ [PersistentWal.callCode method] } }
  | .step task => (clones.system.step task).map fun system => { clones with system }
  | .written index =>
    clones.system.data.snapshots[index]?.map fun snapshot =>
      { file := some snapshot
        system := { clones.system with
          data := { clones.system.data with snapshots := clones.system.data.snapshots.eraseIdx index } } }
  | .restart => some (idle (PersistentWal.new clones.file) clones.file)

end WalClones

end EventBase
