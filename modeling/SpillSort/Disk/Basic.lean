import SpillSort.Bytes

/-! # The temporary store

The part of a file system that runs are kept in: temporary directories, each with entries of its own
and no deeper directories that anything is read from. A file has an identity apart from its name.
Removing it takes the name away, and a reader that has the file open goes on reading its content.

Directories have numbers here where a system would pick unused random names, so two directories never
share a name. Texts show every directory as `<tmp>`.
-/

namespace SpillSort

/-- Why a file operation failed. -/
inductive FileError
  | notFound
  | alreadyExists
  | isDirectory
  | notDirectory
  | storageFull
  | nameTooLong
  | other (text : String)
deriving DecidableEq, Repr

def FileError.message : FileError → String
  | .notFound => "No such file or directory (os error 2)"
  | .alreadyExists => "File exists (os error 17)"
  | .isDirectory => "Is a directory (os error 21)"
  | .notDirectory => "Not a directory (os error 20)"
  | .storageFull => "No space left on device (os error 28)"
  | .nameTooLong => "File name too long (os error 36)"
  | .other text => text

/-- Where temporary directories are made: the standard place, or one that was asked for. -/
inductive Place
  | standard
  | named (path : String)
deriving DecidableEq, Repr, Inhabited

/-- A name in a temporary directory. -/
structure SpillPath where
  directory : Nat
  name : String
deriving DecidableEq, Repr, Inhabited

/-- The text every temporary directory is shown as. -/
def directoryText : String := "<tmp>"

def SpillPath.text (path : SpillPath) : String := directoryText ++ "/" ++ path.name

/-- What a name stands for: a file by its identity, or an empty directory. -/
inductive Entry
  | file (node : Nat)
  | directory
deriving DecidableEq, Repr, Inhabited

/-- The temporary store. `contents` holds every file ever made, under its identity. -/
structure Disk where
  contents : Array Bytes
  entries : List (SpillPath × Entry)
  directories : List (Nat × Place)
  /-- The number of the next directory. -/
  nextDirectory : Nat
  /-- The places where no directory can be made, and why. -/
  refused : List (Place × FileError)
deriving Repr, Inhabited

namespace Disk

/-- A store without directories, in which every place can be used. -/
def empty : Disk := ⟨#[], [], [], 0, []⟩

/-- What a path stands for. -/
def entry? (disk : Disk) (path : SpillPath) : Option Entry := disk.entries.lookup path

/-- The directory has not been removed. -/
def hasDirectory (disk : Disk) (directory : Nat) : Bool :=
  disk.directories.any (·.1 = directory)

/-- The content of a file. -/
def content (disk : Disk) (node : Nat) : Bytes := disk.contents.getD node []

/-- A fresh directory in a place. -/
def makeDirectory (disk : Disk) (place : Place) : Except FileError Nat × Disk :=
  match disk.refused.lookup place with
  | some error => (.error error, disk)
  | none =>
    (.ok disk.nextDirectory,
      { disk with
        directories := (disk.nextDirectory, place) :: disk.directories
        nextDirectory := disk.nextDirectory + 1 })

/-- A fresh empty file under a name that stands for nothing yet. -/
def create (disk : Disk) (path : SpillPath) : Except FileError Nat × Disk :=
  if disk.hasDirectory path.directory then
    match disk.entry? path with
    | some _ => (.error .alreadyExists, disk)
    | none =>
      (.ok disk.contents.size,
        { disk with
          contents := disk.contents.push []
          entries := (path, .file disk.contents.size) :: disk.entries })
  else (.error .notFound, disk)

/-- The store with another content in a file. -/
def setContent (disk : Disk) (node : Nat) (bytes : Bytes) : Disk :=
  { disk with contents := disk.contents.setIfInBounds node bytes }

/-- The store without a name. -/
def forget (disk : Disk) (path : SpillPath) : Disk :=
  { disk with entries := disk.entries.filter (·.1 ≠ path) }

/-- Removes the name of a file. -/
def remove (disk : Disk) (path : SpillPath) : Except FileError Unit × Disk :=
  match disk.entry? path with
  | none => (.error .notFound, disk)
  | some .directory => (.error .isDirectory, disk)
  | some (.file _) => (.ok (), disk.forget path)

/-- The store without a directory and all names in it. -/
def forgetDirectory (disk : Disk) (directory : Nat) : Disk :=
  { disk with
    entries := disk.entries.filter (·.1.directory ≠ directory)
    directories := disk.directories.filter (·.1 ≠ directory) }

/-- Removes a directory with everything in it. -/
def removeDirectory (disk : Disk) (directory : Nat) : Except FileError Unit × Disk :=
  if disk.hasDirectory directory then (.ok (), disk.forgetDirectory directory)
  else (.error .notFound, disk)

/-- The length a directory reports when it is opened in place of a file. -/
def directoryLength : Nat := 4096

end Disk

end SpillSort
