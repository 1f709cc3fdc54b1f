import SpillSort.Spill.Frame

/-! # Reading a run back

A reader hands out the records of one run, once each and in order. It is fused: after its last record
or its first error it has nothing more. A reader may be asked to delete the file as soon as it is
asked for a record after the last.
-/

namespace SpillSort

/-- Removes the name of a spill file. A missing file counts as removed. -/
def removeSpillFile (path : SpillPath) : HostM (Except FileError Unit) := do
  match ← Host.onDisk (·.remove path) with
  | .ok () =>
    Host.report .trace s!"spill file {path.text} removed"
    return .ok ()
  | .error .notFound => return .ok ()
  | .error error => return .error error

/-- A run being read. `file` is missing once the reader has ended. -/
structure SpillReader (α : Type) where
  format : SpillFormat α
  file : Option BufferedFile
  path : SpillPath
  /-- Records not read yet. -/
  remaining : Nat
  /-- Bytes of frames not read yet. -/
  left : Nat
  disposesOnExhaust : Bool

namespace SpillReader

variable {α : Type}

/-- The reader that deletes its file when it is exhausted. -/
def disposeOnExhaust (reader : SpillReader α) : SpillReader α :=
  { reader with disposesOnExhaust := true }

/-- Bounds of how many answers are still to come. -/
def sizeHint (reader : SpillReader α) : Nat × Nat :=
  (0, if reader.file.isSome then reader.remaining else 0)

/-- Closes the file of an exhausted reader, and deletes it if that was asked for. -/
def finish (reader : SpillReader α) : HostM (SpillReader α) := do
  if reader.file.isSome ∧ reader.disposesOnExhaust then
    match ← removeSpillFile reader.path with
    | .ok () =>
      Host.report .trace s!"spill file {reader.path.text} consumed and removed"
    | .error error =>
      Host.report .warn
        s!"consumed spill file {reader.path.text} not removed: {error.message}"
  return { reader with file := none }

/-- The answer to one request while records remain and the file is open. -/
def readRecord (reader : SpillReader α) (file : BufferedFile) (disk : Disk) :
    Except SpillError α × SpillReader α :=
  match Frame.read file reader.left disk with
  | .error fault => (.error (.decode fault), { reader with file := none })
  | .ok (payload, file, left) =>
    match reader.format.decode payload with
    | .error fault => (.error (.decode (.payload fault)), { reader with file := none })
    | .ok record =>
      (.ok record, { reader with file := some file, left, remaining := reader.remaining - 1 })

/-- The next record, an error, or nothing at the end. -/
def next (reader : SpillReader α) :
    HostM (Option (Except SpillError α) × SpillReader α) := do
  if reader.remaining = 0 then return (none, ← reader.finish)
  match reader.file with
  | none => return (none, reader)
  | some file =>
    let (answer, reader) := reader.readRecord file (← get).disk
    return (some answer, reader)

end SpillReader

end SpillSort
