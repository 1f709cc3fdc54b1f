import SpillSort.Spill.Reader

/-! # The store of spilled runs

A store keeps runs as files of a temporary directory of its own, made when the first run is written.
It knows the files it has made and not yet disposed of, and closing it removes them with the
directory. File names are numbered through the life of the store, also over failed writes.
-/

namespace SpillSort

/-- A run that was written. -/
structure SpillHandle where
  path : SpillPath
  records : Nat
  /-- The length of the file. -/
  size : Nat
deriving DecidableEq, Repr, Inhabited

/-- The state of a store. -/
structure SpillStore where
  place : Place
  directory : Option Nat
  bufferSize : Option Nat
  nextId : Nat
  /-- Files made and not yet disposed of, oldest first. -/
  live : List SpillPath
deriving Repr, Inhabited

/-- The file name of the run with a number, six digits or more. -/
def runName (id : Nat) : String :=
  let digits := Nat.toDigits 10 id
  "run-" ++ String.ofList (List.replicate (6 - digits.length) '0' ++ digits) ++ ".spill"

namespace SpillStore

/-- A store without runs and without a directory. -/
def new (place : Place) (bufferSize : Option Nat) : SpillStore := ⟨place, none, bufferSize, 0, []⟩

/-- The number of files the store takes to be on disk. -/
def liveFiles (store : SpillStore) : Nat := store.live.length

/-- The store's directory, made if there is none. -/
def ensureDirectory (store : SpillStore) : HostM (Except FileError Nat × SpillStore) := do
  match store.directory with
  | some directory => return (.ok directory, store)
  | none =>
    match ← Host.onDisk (·.makeDirectory store.place) with
    | .error error => return (.error error, store)
    | .ok directory =>
      Host.report .info s!"using {directoryText} as a temporary directory"
      return (.ok directory, { store with directory := some directory })

/-- Deletes one file. Its entry stays if that fails. -/
def removeLive (store : SpillStore) (path : SpillPath) :
    HostM (Except FileError Unit × SpillStore) := do
  match ← removeSpillFile path with
  | .error error => return (.error error, store)
  | .ok () => return (.ok (), { store with live := store.live.filter (· ≠ path) })

/-- Deletes the file of a run. A file that is gone already is no error. -/
def dispose (store : SpillStore) (handle : SpillHandle) :
    HostM (Except FileError Unit × SpillStore) :=
  store.removeLive handle.path

/-- Deletes every file of a list and answers with the first failure. -/
def removeAll : List SpillPath → HostM (Except FileError Unit)
  | [] => return .ok ()
  | path :: paths => do
    let first ← removeSpillFile path
    let others ← removeAll paths
    match first with
    | .error error => return .error error
    | .ok () => return others

/-- Deletes every live file. All are attempted, none is live afterwards. -/
def disposeAll (store : SpillStore) : HostM (Except FileError Unit × SpillStore) := do
  let answer ← removeAll store.live
  return (answer, { store with live := [] })

/-- Deletes every live file and the directory. A failure of the directory counts before one of the
files. Closing again does nothing. -/
def close (store : SpillStore) : HostM (Except FileError Unit × SpillStore) := do
  let (disposed, store) ← store.disposeAll
  match store.directory with
  | none => return (disposed, store)
  | some directory =>
    Host.report .debug s!"removing temporary directory {directoryText}"
    let store := { store with directory := none }
    match ← Host.onDisk (·.removeDirectory directory) with
    | .error error => return (.error error, store)
    | .ok () => return (disposed, store)

/-- Closes a store that nobody will use again; a failure is only logged. -/
def discard (store : SpillStore) : HostM SpillStore := do
  let (closed, store) ← store.close
  if let .error error := closed then
    Host.report .warn s!"spill files cleanup failed: {error.message}"
  return store

variable {α : Type}

/-- The frames of a run, if there is a buffer to write them through. -/
def dump (store : SpillStore) (format : SpillFormat α) (records : List α) :
    Except SpillError Bytes :=
  let capacity := store.bufferSize.getD BufferedFile.standardCapacity
  if capacity ≤ BufferedFile.capacityLimit then Frame.encodeAll format records
  else .error (.bufferTooLarge capacity)

/-- Writes the records of a run, in the order given, to a file of its own. If a record is refused the
file is deleted again. A write that is given up for want of a buffer does not come to that: its file
stays, empty and live. -/
def write (store : SpillStore) (format : SpillFormat α) (records : List α) :
    HostM (Except SpillError SpillHandle × SpillStore) := do
  match ← store.ensureDirectory with
  | (.error error, store) => return (.error (.temporaryDirectory error), store)
  | (.ok directory, store) =>
    let path : SpillPath := ⟨directory, runName store.nextId⟩
    let store := { store with nextId := store.nextId + 1 }
    match ← Host.onDisk (·.create path) with
    | .error error => return (.error (.io error), store)
    | .ok node =>
      let store := { store with live := store.live ++ [path] }
      match store.dump format records with
      | .ok frames =>
        let content := Frame.magic ++ frames
        Host.onDisk fun disk => ((), disk.setContent node content)
        Host.report .debug
          s!"spilled {records.length} records ({content.length} bytes) to {path.text}"
        return (.ok ⟨path, records.length, content.length⟩, store)
      | .error (.bufferTooLarge size) =>
        Host.lackMemory size
        return (.error (.bufferTooLarge size), store)
      | .error error =>
        let (removed, store) ← store.removeLive path
        if let .error fault := removed then
          Host.report .warn s!"partial spill file {path.text} not removed: {fault.message}"
        return (.error error, store)

/-- Opens the file of a run for reading. Its length and its header are checked here, the frames only
when they are read. -/
def openReader (store : SpillStore) (format : SpillFormat α) (handle : SpillHandle) :
    HostM (Except SpillError (SpillReader α)) := do
  let disk := (← get).disk
  match disk.entry? handle.path with
  | none => return .error (.io .notFound)
  | some .directory =>
    if Disk.directoryLength = handle.size then return .error (.io .isDirectory)
    else return .error (.decode (.wrongLength handle.path Disk.directoryLength handle.size))
  | some (.file node) =>
    let length := (disk.content node).length
    if length ≠ handle.size then
      return .error (.decode (.wrongLength handle.path length handle.size))
    let capacity := store.bufferSize.getD BufferedFile.standardCapacity
    match (BufferedFile.start node capacity).readExact? Frame.magic.length disk with
    | none => return .error (.decode .truncated)
    | some (header, file) =>
      if header ≠ Frame.magic then return .error (.decode (.unknownHeader handle.path))
      return .ok
        { format
          file := some file
          path := handle.path
          remaining := handle.records
          left := handle.size - Frame.magic.length
          disposesOnExhaust := false }

end SpillStore

end SpillSort
