import SpillSort.Table.Geometry
import SpillSort.Text.Integer

/-! # Values as table cells

A cell holds a value of the declared type of its column. The empty cell holds null, so an empty string
does not survive being written.
-/

namespace SpillSort

/-- Why a cell holds no value of its column. -/
inductive CellFault
  | boolean (cell : String)
  | integer (cell : String) (fault : Text.IntegerFault)
  | float (cell : String) (fault : Binary64.TextFault)
  | geometry (fault : GeometryFault)
deriving DecidableEq, Repr

def CellFault.message : CellFault → String
  | .boolean cell => s!"{cell} is not a boolean"
  | .integer cell fault => s!"{cell}: {fault.message}"
  | .float cell fault => s!"{cell}: {fault.message}"
  | .geometry fault => fault.message

namespace Value

/-- The value in a cell that is not empty. -/
def ofText (type : FieldType) (cell : String) : Except CellFault Value :=
  match type with
  | .boolean =>
    match cell with
    | "true" => .ok (.boolean true)
    | "false" => .ok (.boolean false)
    | _ => .error (.boolean cell)
  | .integer => ((Text.readInt64 cell.toList).map .integer).mapError (.integer cell)
  | .float => ((Binary64.read cell.toList).map .float).mapError (.float cell)
  | .string => .ok (.string cell)
  | .timestamp => ((Text.readInt64 cell.toList).map .timestamp).mapError (.integer cell)
  | .geometry => ((Geometry.read cell.toList).map .geometry).mapError .geometry

/-- The value in a cell of a column of some type. -/
def ofCell (type : FieldType) (cell : String) : Except CellFault Value :=
  if cell = "" then .ok .null else ofText type cell

/-- The cell of a value. -/
def toCell : Value → String
  | .null => ""
  | .boolean true => "true"
  | .boolean false => "false"
  | .integer value => Text.writeInt64 value
  | .float value => value.toText
  | .string value => value
  | .timestamp value => Text.writeInt64 value
  | .geometry value => String.ofList value.write

end Value

end SpillSort
