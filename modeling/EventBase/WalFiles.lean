import EventBase.Wal
import EventBase.Foundations.Disk

/-! The files of the `PersistentWal` handles of one process. A flush opens its temporary
file, writes it byte by byte and renames it; flushes of several handles are interleaved at
every file operation, and each may fail at any of them. -/

namespace EventBase
open Foundations

/-- `name` is empty for a path that has no file name. -/
structure WalPath where
  directory : String
  name : String
  deriving DecidableEq

namespace WalPath

def hasFileName (path : WalPath) : Bool := path.name ≠ "" && path.name ≠ ".."

/-- `Path::file_stem`: what stands before the last dot, the whole name where that is nothing. -/
def fileStem (path : WalPath) : String :=
  match (path.name.toList.reverse.dropWhile (· ≠ '.')).tail with
  | [] => path.name
  | stem => String.ofList stem.reverse

def withExtension (path : WalPath) (extension : String) : WalPath :=
  if path.hasFileName then { path with name := path.fileStem ++ "." ++ extension } else path

/-- The `temp_path` of a flush. -/
def tempPath (path : WalPath) : WalPath := path.withExtension "tmp"

end WalPath

/-- How a store is written to a file; a gap in a file reads as `zero`. -/
structure StoreCodec where
  Byte : Type
  zero : Byte
  encode : WalStore → List Byte
  decode : List Byte → Option WalStore
  decode_encode : ∀ store, decode (encode store) = some store

/-- Where a flush is: before `fs::write`, in it with so many bytes of the file written, or over. -/
inductive FlushPhase where
  | opening
  | writing (file written : Nat)
  | ended
  deriving DecidableEq

structure FlushCall where
  path : WalPath
  store : WalStore
  phase : FlushPhase := .opening

def FlushCall.file (call : FlushCall) : Option Nat :=
  match call.phase with
  | .writing file _ => some file
  | _ => none

/-- `known` has what the handles found when they were made, and what was flushed. -/
structure WalFiles (codec : StoreCodec) where
  disk : Disk WalPath codec.Byte
  calls : List FlushCall := []
  known : List (WalPath × WalStore) := []

inductive FileEvent where
  | new (path : WalPath)
  | flush (path : WalPath) (store : WalStore)
  | advance (call : Nat)
  | fail (call : Nat)

namespace WalFiles
variable {codec : StoreCodec}

def handles (files : WalFiles codec) : List WalPath := files.known.map Prod.fst

/-- `PersistentWal::new`: `none` where the file cannot be decoded. -/
def load (disk : Disk WalPath codec.Byte) (path : WalPath) : Option WalStore :=
  match disk.read path with
  | none => some (PersistentWal.new none)
  | some bytes => (codec.decode bytes).map fun store => PersistentWal.new (some store)

def proceed (disk : Disk WalPath codec.Byte) (call : FlushCall) : Option (Disk WalPath codec.Byte × FlushPhase) :=
  match call.phase with
  | .opening =>
    if call.path.hasFileName then
      let opened := disk.create call.path.tempPath
      some (opened.2, .writing opened.1 0)
    else some (disk, .ended)
  | .writing file written =>
    match (codec.encode call.store)[written]? with
    | some byte => some (disk.put codec.zero file written byte, .writing file (written + 1))
    | none => some ((disk.rename call.path.tempPath call.path).getD disk, .ended)
  | .ended => none

def step (files : WalFiles codec) : FileEvent → Option (WalFiles codec)
  | .new path => (load files.disk path).map fun store => { files with known := files.known ++ [(path, store)] }
  | .flush path store =>
    if path ∈ files.handles then
      some { files with calls := files.calls ++ [{ path, store }], known := files.known ++ [(path, store)] }
    else none
  | .advance index =>
    files.calls[index]?.bind fun call =>
      (proceed files.disk call).map fun (disk, phase) =>
        { files with disk, calls := files.calls.set index { call with phase } }
  | .fail index =>
    files.calls[index]?.map fun call => { files with calls := files.calls.set index { call with phase := .ended } }

end WalFiles

end EventBase
