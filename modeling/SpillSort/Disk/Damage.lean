import SpillSort.Disk.Basic

/-! # Changes from outside

What other programs may do to the temporary store while runs are kept in it. A change of a file's
content is seen by readers that have the file open; a removed file is still read by them.
-/

namespace SpillSort

/-- A change of one file. -/
inductive Damage
  | truncate (length : Nat)
  | patch (offset : Nat) (bytes : Bytes)
  | remove
  | becomeDirectory
deriving DecidableEq, Repr

namespace Damage

/-- Bytes cut or filled up with zeros to a length. -/
def resize (length : Nat) (bytes : Bytes) : Bytes :=
  bytes.take length ++ List.replicate (length - bytes.length) 0

/-- Bytes overwritten from an offset on. A gap before it becomes zeros, unless there is nothing to
write. -/
def overwrite (offset : Nat) (patch bytes : Bytes) : Bytes :=
  if patch = [] then bytes
  else resize offset bytes ++ patch ++ bytes.drop (offset + patch.length)

end Damage

namespace Disk

/-- The store after a change of the file at a path. -/
def damage (disk : Disk) (damage : Damage) (path : SpillPath) : Disk :=
  match damage, disk.entry? path with
  | .truncate length, some (.file node) =>
    disk.setContent node (Damage.resize length (disk.content node))
  | .patch offset bytes, some (.file node) =>
    disk.setContent node (Damage.overwrite offset bytes (disk.content node))
  | .remove, some (.file _) => disk.forget path
  | .becomeDirectory, some (.file _) =>
    let rest := disk.forget path
    { rest with entries := (path, .directory) :: rest.entries }
  | _, _ => disk

/-- The directories in a place. -/
def directoriesIn (disk : Disk) (place : Place) : List Nat :=
  (disk.directories.filter (·.2 = place)).map (·.1)

/-- The store without the directories in a place. -/
def loseDirectories (disk : Disk) (place : Place) : Disk :=
  (disk.directoriesIn place).foldl forgetDirectory disk

/-- The store with an empty file of a name in every directory in a place. -/
def touch (disk : Disk) (place : Place) (name : String) : Disk :=
  (disk.directoriesIn place).foldl (fun disk directory =>
    let path : SpillPath := ⟨directory, name⟩
    match disk.entry? path with
    | some (.file node) => disk.setContent node []
    | some .directory => disk
    | none => (disk.create path).2) disk

/-- The names in all directories in a place, in name order. -/
def listing (disk : Disk) (place : Place) : List (SpillPath × Entry) :=
  let directories := disk.directoriesIn place
  (disk.entries.filter (·.1.directory ∈ directories)).mergeSort fun a b =>
    ((compare a.1.name b.1.name).then (compare a.1.directory b.1.directory)).isLE

end Disk

end SpillSort
