import SpillSort.Disk.Basic

/-! # Sinks

What a table is written to. A failing write may have taken some of the bytes.
-/

namespace SpillSort

/-- Outputs of type `ω`. -/
class Sink (ω : Type) where
  /-- Takes all the bytes, or fails. -/
  write : ω → Bytes → Except FileError Unit × ω
  /-- Passes on what the sink holds back. -/
  flush : ω → Except FileError Unit × ω

/-- A sink in memory, with room for so many bytes more if that is bounded. -/
structure MemorySink where
  content : Bytes
  room : Option Nat
deriving DecidableEq, Repr

namespace MemorySink

/-- A sink with nothing in it. -/
def empty (room : Option Nat) : MemorySink := ⟨[], room⟩

/-- Takes the bytes there is room for, and fails if that is not all of them. -/
def write (sink : MemorySink) (bytes : Bytes) : Except FileError Unit × MemorySink :=
  match sink.room with
  | none => (.ok (), { sink with content := sink.content ++ bytes })
  | some room =>
    (if bytes.length ≤ room then .ok () else .error (.other "sink full"),
      ⟨sink.content ++ bytes.take room, some (room - bytes.length)⟩)

end MemorySink

instance : Sink MemorySink where
  write := MemorySink.write
  flush sink := (.ok (), sink)

end SpillSort
