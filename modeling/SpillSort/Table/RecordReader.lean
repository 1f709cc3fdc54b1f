import SpillSort.Table.Fault
import SpillSort.Table.Scan
import SpillSort.Text.Utf8

/-! # Reading records

A record reader cuts an input into records of text. The first record sets how many cells every record
has. A record that differs in that, or that is not UTF-8, is an error, and reading goes on behind it.
A failing read ends the input.
-/

namespace SpillSort

/-- An input, where it stands, the records cut from it so far, and the width of the first one. -/
structure RecordReader where
  input : List Signal
  spot : Spot
  records : Nat
  width : Option Nat
deriving Repr

/-- A record as text, with the place where the one before it ended. -/
structure TableRecord where
  start : RecordStart
  cells : List String
deriving DecidableEq, Repr

namespace RecordReader

/-- The bytes and the failures of an input that arrives in pieces. -/
def signals (pieces : List (Except FileError Bytes)) : List Signal :=
  pieces.flatMap fun
    | .ok bytes => bytes.map .ok
    | .error error => [.error error]

/-- Where a byte string goes on after a byte order mark. -/
def afterMark? : Bytes → Option Bytes
  | 0xEF :: 0xBB :: 0xBF :: rest => some rest
  | _ => none

/-- A reader of an input that arrives in pieces, none of them empty. A byte order mark at the front of
the first piece is dropped; if it is the whole piece, it is taken for the whole input. -/
def ofPieces (pieces : List (Except FileError Bytes)) : RecordReader :=
  match pieces with
  | .ok bytes :: others =>
    match afterMark? bytes with
    | some [] => ⟨[], ⟨3, 1⟩, 0, none⟩
    | some rest => ⟨signals (.ok rest :: others), ⟨3, 1⟩, 0, none⟩
    | none => ⟨signals pieces, ⟨0, 1⟩, 0, none⟩
  | _ => ⟨signals pieces, ⟨0, 1⟩, 0, none⟩

/-- Where the next record is said to start: behind the break that ended the last one, though empty lines
may follow. A byte order mark is not before the first record. -/
def start (reader : RecordReader) : RecordStart :=
  ⟨if reader.records = 0 then 0 else reader.spot.byte, reader.spot.line, reader.records⟩

/-- The cells as text. The first one that is not UTF-8 is reported, with how much of it is. -/
def decodeCells : Nat → List Bytes → Except (Nat × Nat) (List String)
  | _, [] => .ok []
  | index, cell :: cells =>
    match Utf8.decode cell with
    | .error byte => .error (index, byte)
    | .ok text => (decodeCells (index + 1) cells).map (text :: ·)

/-- The record made of some cells, if there are as many as wanted. -/
def check (start : RecordStart) (width : Nat) (cells : List Bytes) : Except TableError TableRecord :=
  if cells.length = width then
    match decodeCells 0 cells with
    | .ok texts => .ok ⟨start, texts⟩
    | .error (cell, byte) => .error (.malformed start.line (.encoding start cell byte))
  else .error (.malformed start.line (.width (some start) cells.length width))

/-- The reader at the end of its input. -/
def ended (reader : RecordReader) : RecordReader := { reader with input := [] }

/-- The next record, or nothing at the end. -/
def next (reader : RecordReader) : Except TableError (Option TableRecord) × RecordReader :=
  match Table.skipBreaks reader.spot reader.input with
  | (_, []) => (.ok none, reader.ended)
  | (spot, signal :: rest) =>
    let cut := Table.cutRecord spot (signal :: rest)
    match cut.cells with
    | .error error => (.error (.io error), reader.ended)
    | .ok cells =>
      let width := reader.width.getD cells.length
      ((check reader.start width cells).map some,
        ⟨cut.rest, cut.spot, reader.records + 1, some width⟩)

/-- Every record uses up some input. -/
theorem length_next {reader reader' : RecordReader} {record : TableRecord}
    (read : reader.next = (.ok (some record), reader')) :
    reader'.input.length < reader.input.length := by
  have breaks := Table.length_skipBreaks reader.spot reader.input
  unfold next at read
  split at read
  · simp at read
  · next spot signal rest left =>
    rw [left] at breaks
    have used := Table.length_cutRecord spot signal rest
    dsimp only at read
    split at read
    · simp at read
    · simp only [Prod.mk.injEq] at read
      rw [← read.2]
      exact Nat.lt_of_le_of_lt used breaks

end RecordReader

end SpillSort
