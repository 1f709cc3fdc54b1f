import SpillSort.Binary64.Decimal
import SpillSort.Feature
import SpillSort.Text.Blank

/-! # Geometries as text

A geometry is written as its kind and its coordinates: `POINT(x y)`, `LINESTRING(x y, x y)` or
`POLYGON((x y, x y), (x y, x y))`. Reading also takes white space around the kind, the rings and the
ordinates, and any number of parentheses around a ring. Nothing empty can be read: a geometry without
a coordinate has a text, but that text stands for no geometry.
-/

namespace SpillSort

/-- Why a text is not a geometry. -/
inductive GeometryFault
  | shapeless (cell : String)
  | unknownKind (kind : String)
  | notCoordinate (text : String)
  | ordinate (text : String) (fault : Binary64.TextFault)
deriving DecidableEq, Repr

def GeometryFault.message : GeometryFault → String
  | .shapeless cell => s!"{cell} is not a geometry"
  | .unknownKind kind => s!"unsupported geometry type {kind}"
  | .notCoordinate text => s!"{text} is not a coordinate"
  | .ordinate text fault => s!"ordinate {text}: {fault.message}"

namespace Geometry

/-! ## Reading -/

def readOrdinate (word : List Char) : Except GeometryFault Binary64 :=
  (Binary64.read word).mapError (.ordinate (String.ofList word))

/-- Two ordinates with white space between them. -/
def readCoordinate (text : List Char) : Except GeometryFault Coordinate :=
  match Text.words text with
  | [x, y] => return ⟨← readOrdinate x, ← readOrdinate y⟩
  | _ => .error (.notCoordinate (String.ofList (Text.trim text)))

def readPath (text : List Char) : Except GeometryFault (List Coordinate) :=
  (Text.splitAll ',' text).mapM readCoordinate

/-- A path in parentheses, of which the outermost are lost where rings are separated. -/
def readRing (text : List Char) : Except GeometryFault (List Coordinate) :=
  readPath (Text.trimEnd (· = ')') ((Text.trim text).dropWhile (· = '(')))

/-- The kind of a geometry and what stands in its parentheses. -/
def split? (text : List Char) : Option (List Char × List Char) := do
  let (kind, rest) ← Text.splitFirst? '(' text
  return (Text.trim kind, ← Text.stripLast? ')' rest)

/-- The geometry a text stands for. -/
def read (text : List Char) : Except GeometryFault Geometry :=
  match split? text with
  | none => .error (.shapeless (String.ofList text))
  | some (kind, body) =>
    match String.ofList kind with
    | "POINT" => .point <$> readCoordinate body
    | "LINESTRING" => .lineString <$> readPath body
    | "POLYGON" => .polygon <$> (Text.splitAtPair ')' ',' body).mapM readRing
    | kind => .error (.unknownKind kind)

/-! ## Writing -/

def writeCoordinate (position : Coordinate) : List Char :=
  position.x.write ++ ' ' :: position.y.write

/-- Texts in parentheses, separated by commas. -/
def writeList (parts : List (List Char)) : List Char :=
  '(' :: [',', ' '].intercalate parts ++ [')']

def writePath (path : List Coordinate) : List Char := writeList (path.map writeCoordinate)

/-- The text of a geometry. -/
def write : Geometry → List Char
  | .point position => "POINT".toList ++ writeList [writeCoordinate position]
  | .lineString path => "LINESTRING".toList ++ writePath path
  | .polygon rings => "POLYGON".toList ++ writeList (rings.map writePath)

end Geometry

end SpillSort
