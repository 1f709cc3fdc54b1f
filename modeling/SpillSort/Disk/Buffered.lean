import SpillSort.Disk.Basic

/-! # Reading files ahead

An open file is read through a buffer. A request that the buffer cannot serve takes from the file at
least as many bytes as the buffer holds when full, so what was read ahead is no longer affected by
changes of the file. Files are read from the front to the back, never again.
-/

namespace SpillSort

/-- An open file: how far it has been read, and the bytes read but not handed out. -/
structure BufferedFile where
  node : Nat
  offset : Nat
  ahead : Bytes
  capacity : Nat
deriving DecidableEq, Repr

namespace BufferedFile

/-- The buffer size where none is given. -/
def standardCapacity : Nat := 8192

/-- The largest buffer that can be had, one byte short of 32 GiB. -/
def capacityLimit : Nat := 2 ^ 35 - 1

/-- A file opened at its front. -/
def start (node capacity : Nat) : BufferedFile := ⟨node, 0, [], capacity⟩

/-- The next `count` bytes, or nothing if the file ends before. -/
def readExact? (file : BufferedFile) (count : Nat) (disk : Disk) : Option (Bytes × BufferedFile) :=
  if count ≤ file.ahead.length then
    some (file.ahead.take count, { file with ahead := file.ahead.drop count })
  else
    let missing := count - file.ahead.length
    let got := ((disk.content file.node).drop file.offset).take (max missing file.capacity)
    if got.length < missing then none
    else some (file.ahead ++ got.take missing,
      { file with offset := file.offset + got.length, ahead := got.drop missing })

end BufferedFile

end SpillSort
