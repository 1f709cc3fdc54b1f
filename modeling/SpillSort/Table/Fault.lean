import SpillSort.Host
import SpillSort.Table.Cell

/-! # Faults of table files -/

namespace SpillSort

/-- The start of a record: bytes before it, the number of its line, and records before it. -/
structure RecordStart where
  byte : Nat
  line : Nat
  record : Nat
deriving DecidableEq, Repr

/-- What is wrong with a table or with a record of it. -/
inductive TableFault
  | noIdentifierColumn
  | untypedColumn (column : String)
  | unknownType (name type : String)
  | noIdentifier
  | attribute (name : String) (fault : CellFault)
  /-- A record with another number of cells than the first one. One that is written has no start. -/
  | width (start : Option RecordStart) (found expected : Nat)
  /-- A cell that is not UTF-8 from a byte on. -/
  | encoding (start : RecordStart) (cell byte : Nat)
deriving DecidableEq, Repr

namespace TableFault

/-- A record as it is named in messages about its width. -/
def recordText (start : Option RecordStart) : String :=
  match start with
  | some start => s!"record {start.record} (line: {start.line}, byte: {start.byte}): "
  | none => ""

def message : TableFault → String
  | .noIdentifierColumn => "first column must be id"
  | .untypedColumn column => s!"column {column} has no type"
  | .unknownType name type => s!"column {name} has unknown type {type}"
  | .noIdentifier => "feature identifier missing"
  | .attribute name fault => s!"attribute {name} not parsed: {fault.message}"
  | .width start found expected =>
    "CSV error: " ++ recordText start ++
      s!"found record with {found} fields, but the previous record has {expected} fields"
  | .encoding start cell byte =>
    s!"CSV parse error: record {start.record} (line {start.line}, field: {cell}, " ++
      s!"byte: {start.byte}): invalid utf-8: invalid UTF-8 in field {cell} near byte index {byte}"

end TableFault

/-- Why a table cannot be read or written on. -/
inductive TableError
  | io (error : FileError)
  | malformed (line : Nat) (fault : TableFault)
deriving DecidableEq, Repr

namespace TableError

def message : TableError → String
  | .io error => "feature file I/O error: " ++ error.message
  | .malformed line fault => s!"line {line}: {fault.message}"

/-- The text of what lies behind the error, if anything does. -/
def cause? : TableError → Option String
  | .io error => some error.message
  | .malformed .. => none

end TableError

instance : ErrorText TableError := ⟨TableError.message⟩

end SpillSort
