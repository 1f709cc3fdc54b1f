import SpillSort.Binary64.Basic

/-! # Features

A feature is an identifier with attribute values laid out as a schema says. The layout is not
enforced: a feature may have fewer values than the schema has fields, and the missing ones read as
null, or values of other types than declared.
-/

namespace SpillSort

/-- The declared type of an attribute. A timestamp counts milliseconds since the epoch. -/
inductive FieldType
  | boolean
  | integer
  | float
  | string
  | timestamp
  | geometry
deriving DecidableEq, Repr, Inhabited

namespace FieldType

def name : FieldType → String
  | .boolean => "boolean"
  | .integer => "integer"
  | .float => "float"
  | .string => "string"
  | .timestamp => "timestamp"
  | .geometry => "geometry"

def all : List FieldType := [.boolean, .integer, .float, .string, .timestamp, .geometry]

/-- The type of a given name. -/
def ofName? (name : String) : Option FieldType := all.find? (·.name = name)

end FieldType

/-- A position in the plane. -/
structure Coordinate where
  x : Binary64
  y : Binary64
deriving DecidableEq, Repr, Inhabited

/-- A shape: one position, a path, or an outer ring followed by its holes. -/
inductive Geometry
  | point (position : Coordinate)
  | lineString (path : List Coordinate)
  | polygon (rings : List (List Coordinate))
deriving DecidableEq, Repr, Inhabited

/-- An attribute value. -/
inductive Value
  | null
  | boolean (value : Bool)
  | integer (value : Int64)
  | float (value : Binary64)
  | string (value : String)
  | timestamp (value : Int64)
  | geometry (value : Geometry)
deriving DecidableEq, Repr, Inhabited

/-- The type of a value; null has none. -/
def Value.fieldType? : Value → Option FieldType
  | .null => none
  | .boolean _ => some .boolean
  | .integer _ => some .integer
  | .float _ => some .float
  | .string _ => some .string
  | .timestamp _ => some .timestamp
  | .geometry _ => some .geometry

def Value.isNull (value : Value) : Bool := value = .null

/-- A named attribute of a declared type. -/
structure Field where
  name : String
  type : FieldType
deriving DecidableEq, Repr, Inhabited

/-- The attributes of a kind of feature, in order. Names may repeat. -/
structure Schema where
  name : String
  fields : List Field
deriving DecidableEq, Repr, Inhabited

namespace Schema

/-- The position of the first attribute of that name. -/
def index? (schema : Schema) (name : String) : Option Nat :=
  schema.fields.findIdx? (·.name = name)

/-- The first attribute of that name. -/
def field? (schema : Schema) (name : String) : Option Field :=
  schema.fields.find? (·.name = name)

end Schema

/-- An identifier and the attribute values. -/
structure Feature where
  id : String
  values : List Value
deriving DecidableEq, Repr, Inhabited

namespace Feature

/-- The value at a schema position; a missing one is null. -/
def value (feature : Feature) (index : Nat) : Value := feature.values.getD index .null

/-- The value of a named attribute, if the schema has it. -/
def attribute? (feature : Feature) (schema : Schema) (name : String) : Option Value :=
  (schema.index? name).map feature.value

end Feature

/-! ## Equality of values

Values are equal as numbers are: a NaN differs from itself, and the zeros are equal.
-/

def Coordinate.sameValue (a b : Coordinate) : Bool := a.x.sameValue b.x && a.y.sameValue b.y

/-- Equal length, and each member related to its counterpart. -/
def sameList {α : Type} (same : α → α → Bool) (xs ys : List α) : Bool :=
  xs.length = ys.length && (xs.zip ys).all fun (x, y) => same x y

def Geometry.sameValue : Geometry → Geometry → Bool
  | .point a, .point b => a.sameValue b
  | .lineString as, .lineString bs => sameList Coordinate.sameValue as bs
  | .polygon as, .polygon bs => sameList (sameList Coordinate.sameValue) as bs
  | _, _ => false

def Value.sameValue : Value → Value → Bool
  | .float a, .float b => a.sameValue b
  | .geometry a, .geometry b => a.sameValue b
  | a, b => a == b

def Feature.sameValue (a b : Feature) : Bool :=
  a.id = b.id && sameList Value.sameValue a.values b.values

end SpillSort
