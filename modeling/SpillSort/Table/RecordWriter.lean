import SpillSort.Table.Fault
import SpillSort.Table.Scan
import SpillSort.Table.Sink

/-! # Writing records

A cell that holds a tab, a quote or a line break is put in quotes, and the quotes in it are doubled. A
record of one empty cell is written as two quotes, since an empty line is no record. Every record has
as many cells as the first one.

What is written collects in a buffer of a fixed size, which is handed to the sink when the next unit
does not fit, a unit being a byte or a pair of quotes. When the sink fails, the buffer stays as it is,
and a record stays begun.
-/

namespace SpillSort

/-- A record writer: its sink, what waits to be handed over, and how far the present record is. -/
structure RecordWriter (ω : Type) where
  sink : ω
  buffer : Array UInt8
  /-- The width of the first record. -/
  width : Option Nat
  /-- Cells of the present record that are written. -/
  cells : Nat
  /-- A cell has been begun since the last tab. -/
  inCell : Bool
  /-- The cell begun has an opening quote and no closing one yet. -/
  quoting : Bool
  /-- Nothing of the present record has been written. -/
  blank : Bool
deriving Repr

/-- A step of writing records. What it did before a failure stays done. -/
abbrev RecordWriterM (ω α : Type) := ExceptT TableError (StateM (RecordWriter ω)) α

namespace RecordWriter

open Table

/-- The size of the buffer. -/
def capacity : Nat := 8192

/-- A cell that cannot stand without quotes. -/
def needsQuotes (cell : Bytes) : Bool :=
  cell.any fun byte => byte = tab || byte = quote || isBreak byte

/-- The units of a cell's content. -/
def cellUnits (quoting : Bool) (cell : Bytes) : List Bytes :=
  cell.map fun byte => if quoting && byte = quote then [quote, quote] else [byte]

variable {ω : Type}

/-- A writer that has written nothing. -/
def new (sink : ω) : RecordWriter ω := ⟨sink, #[], none, 0, false, false, true⟩

variable [Sink ω]

/-- A step of the sink. -/
def onSink (step : ω → Except FileError Unit × ω) : RecordWriterM ω Unit := do
  let writer ← get
  let (answer, sink) := step writer.sink
  set { writer with sink }
  if let .error error := answer then throw (.io error)

/-- Hands the buffer to the sink. -/
def drain : RecordWriterM ω Unit := do
  let waiting := (← get).buffer.toList
  onSink (Sink.write · waiting)
  modify fun writer => { writer with buffer := #[] }

/-- Adds a unit to the buffer. -/
def emit (unit : Bytes) : RecordWriterM ω Unit := do
  if (← get).buffer.size + unit.length > capacity then drain
  modify fun writer => { writer with buffer := writer.buffer ++ unit.toArray, blank := false }

/-- Ends the quotes of the cell begun. -/
def closeQuotes : RecordWriterM ω Unit := do
  if (← get).quoting then
    emit [quote]
    modify fun writer => { writer with quoting := false }

/-- Begins a cell, if none is begun. -/
def beginCell (cell : Bytes) : RecordWriterM ω Unit := do
  if ¬ (← get).inCell then
    modify fun writer => { writer with quoting := needsQuotes cell }
    if needsQuotes cell then emit [quote]
    modify fun writer => { writer with inCell := true }

/-- Writes a cell. -/
def putCell (cell : Bytes) : RecordWriterM ω Unit := do
  if (← get).cells > 0 then
    closeQuotes
    emit [tab]
    modify fun writer => { writer with inCell := false }
  beginCell cell
  (cellUnits (← get).quoting cell).forM emit
  modify fun writer => { writer with cells := writer.cells + 1 }

/-- Ends the record, if it has the width of the first one. -/
def endRecord : RecordWriterM ω Unit := do
  let writer ← get
  let width := writer.width.getD writer.cells
  set { writer with width := some width }
  if writer.cells ≠ width then throw (.malformed 0 (.width none writer.cells width))
  closeQuotes
  if (← get).blank then emit [quote, quote]
  emit [lineFeed]
  modify fun writer => { writer with cells := 0, inCell := false, blank := true }

/-- Writes a record. -/
def putRecord (cells : List Bytes) : RecordWriterM ω Unit := do
  cells.forM putCell
  endRecord

/-- Hands everything over. -/
def flush : RecordWriterM ω Unit := do
  drain
  onSink Sink.flush

end RecordWriter

end SpillSort
