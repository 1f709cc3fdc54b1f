import SpillSort.Binary64.Rounding
import SpillSort.Feature
import SpillSort.MessagePack.Item
import SpillSort.Spill.Format
import SpillSort.Text.Utf8

/-! # Record layouts in MessagePack

How records of each type are laid out as items. A structure is an array of its fields in order; a
choice with a content is a map of one entry from the name of the choice to the content, and one
without a content is its name. Reading is more lenient than writing: a structure may be a map from
field names, with other entries among them, a name may be given by its position, text may be marked
as binary, a float may be given as an integer, and bytes may stand for a list of small numbers.

Lists and structures are read only so deep. The map that makes a choice is no level of its own.
-/

namespace SpillSort

/-- The item of a record, and the record of an item. -/
structure Layout (α : Type) where
  toItem : α → Item
  /-- The record of an item, in which there may be so many levels. -/
  ofItem? : Nat → Item → Option α
  /-- The record that one byte of a byte string stands for. -/
  ofByte? : UInt8 → Option α := fun _ => none

namespace Layout

variable {α β : Type}

/-- The deepest nesting of levels in a record that is read. -/
def depthLimit : Nat := 1023

/-- The layout as a format of spilled records. What follows the item is ignored. -/
def format (layout : Layout α) : SpillFormat α where
  encode record := .ok (layout.toItem record).encode
  decode bytes :=
    match (Item.decode? bytes).bind (layout.ofItem? depthLimit) with
    | some record => .ok record
    | none => .error .malformed

/-! ## Plain values -/

/-- Integers of 64 bits; those not below zero are written without a sign. -/
def int64 : Layout Int64 where
  toItem n := if n < 0 then .signed n else .unsigned n.toUInt64
  ofItem? _
    | .unsigned n => if n.toNat < 2 ^ 63 then some n.toInt64 else none
    | .signed n => some n
    | _ => none
  ofByte? byte := some (Int64.ofNat byte.toNat)

def boolean : Layout Bool where
  toItem := .boolean
  ofItem? _
    | .boolean value => some value
    | _ => none

def float : Layout Binary64 where
  toItem := .float
  ofItem? _
    | .float x => some x
    | .unsigned n => some (.ofNat n.toNat)
    | .signed n => some (.ofInt64 n)
    | _ => none
  ofByte? byte := some (.ofNat byte.toNat)

def text : Layout String where
  toItem s := .text (utf8Bytes s)
  ofItem? _
    | .text bytes => (Utf8.decode bytes).toOption
    | .binary bytes => (Utf8.decode bytes).toOption
    | _ => none

/-! ## Composition -/

def optional (layout : Layout α) : Layout (Option α) where
  toItem
    | none => .nil
    | some value => layout.toItem value
  ofItem?
    | _, .nil => some none
    | depth, item => (layout.ofItem? depth item).map some

def list (layout : Layout α) : Layout (List α) where
  toItem values := .array (values.map layout.toItem)
  ofItem?
    | depth + 1, .array items => items.mapM (layout.ofItem? depth)
    | _, .binary bytes => bytes.mapM layout.ofByte?
    | _, _ => none

def pair (first : Layout α) (second : Layout β) : Layout (α × β) where
  toItem value := .array [first.toItem value.1, second.toItem value.2]
  ofItem?
    | depth + 1, .array [a, b] => do return (← first.ofItem? depth a, ← second.ofItem? depth b)
    | _, .binary (a :: b :: _) => do return (← first.ofByte? a, ← second.ofByte? b)
    | _, _ => none

def triple {γ : Type} (first : Layout α) (second : Layout β) (third : Layout γ) :
    Layout (α × β × γ) where
  toItem value := .array [first.toItem value.1, second.toItem value.2.1, third.toItem value.2.2]
  ofItem?
    | depth + 1, .array [a, b, c] => do
      return (← first.ofItem? depth a, ← second.ofItem? depth b, ← third.ofItem? depth c)
    | _, .binary (a :: b :: c :: _) => do
      return (← first.ofByte? a, ← second.ofByte? b, ← third.ofByte? c)
    | _, _ => none

/-! ## Structures and choices -/

/-- The position of the name an item stands for. The first `none` says that the item is no name at
all, the second that it is a name not listed. -/
def nameIndex? (names : List String) : Item → Option (Option Nat)
  | .text bytes => some (names.findIdx? (utf8Bytes · = bytes))
  | .binary bytes => some (names.findIdx? (utf8Bytes · = bytes))
  | .unsigned n => some (if n.toNat < names.length then some n.toNat else none)
  | _ => none

/-- The values of the field at a position among the entries of a map. -/
def entriesAt (names : List String) (index : Nat) (entries : List (Item × Item)) : List Item :=
  (entries.filter fun entry => nameIndex? names entry.1 = some (some index)).map Prod.snd

/-- An entry of a structure with such fields: its key is a name, and if that is no name of a field the
content has no more than `depth` levels. -/
def isEntry (names : List String) (depth : Nat) (entry : Item × Item) : Bool :=
  match nameIndex? names entry.1 with
  | none => false
  | some none => entry.2.height ≤ depth
  | some (some _) => true

/-- The fields of a structure of two fields, each given exactly once, in which there may be `depth`
levels. -/
def twoFields? (first second : String) (depth : Nat) : Item → Option (Item × Item)
  | .array [a, b] => some (a, b)
  | .map entries =>
    let names := [first, second]
    if entries.all (isEntry names depth) then
      match entriesAt names 0 entries, entriesAt names 1 entries with
      | [a], [b] => some (a, b)
      | _, _ => none
    else none
  | _ => none

/-- A structure of two fields, made of them by `make`. -/
def structureOfItem? {γ : Type} (firstName secondName : String) (first : Layout α)
    (second : Layout β) (make : α → β → γ) : Nat → Item → Option γ
  | _, .binary (a :: b :: _) => do return make (← first.ofByte? a) (← second.ofByte? b)
  | 0, _ => none
  | depth + 1, item => do
    let (a, b) ← twoFields? firstName secondName depth item
    return make (← first.ofItem? depth a) (← second.ofItem? depth b)

/-- The position of a choice among its names, and its content if one is given. -/
def choice? (names : List String) : Item → Option (Nat × Option Item)
  | .map [(key, content)] => do return (← (← nameIndex? names key), some content)
  | .map _ => none
  | item => do return (← (← nameIndex? names item), none)

/-- The item of a choice with a content. -/
def choose (name : String) (content : Item) : Item := .map [(text.toItem name, content)]

/-! ## Features -/

def coordinate : Layout Coordinate where
  toItem c := .array [float.toItem c.x, float.toItem c.y]
  ofItem? := structureOfItem? "x" "y" float float Coordinate.mk

def geometryNames : List String := ["Point", "LineString", "Polygon"]

def geometry : Layout Geometry where
  toItem
    | .point position => choose "Point" (coordinate.toItem position)
    | .lineString path => choose "LineString" (coordinate.list.toItem path)
    | .polygon rings => choose "Polygon" (coordinate.list.list.toItem rings)
  ofItem? depth item := do
    match ← choice? geometryNames item with
    | (0, some content) => return .point (← coordinate.ofItem? depth content)
    | (1, some content) => return .lineString (← coordinate.list.ofItem? depth content)
    | (2, some content) => return .polygon (← coordinate.list.list.ofItem? depth content)
    | _ => none

def valueNames : List String :=
  ["Null", "Boolean", "Integer", "Float", "String", "Timestamp", "Geometry"]

def value : Layout Value where
  toItem
    | .null => text.toItem "Null"
    | .boolean b => choose "Boolean" (boolean.toItem b)
    | .integer n => choose "Integer" (int64.toItem n)
    | .float x => choose "Float" (float.toItem x)
    | .string s => choose "String" (text.toItem s)
    | .timestamp n => choose "Timestamp" (int64.toItem n)
    | .geometry g => choose "Geometry" (geometry.toItem g)
  ofItem? depth item := do
    match ← choice? valueNames item with
    | (0, none) => return .null
    | (0, some .nil) => return .null
    | (1, some content) => return .boolean (← boolean.ofItem? depth content)
    | (2, some content) => return .integer (← int64.ofItem? depth content)
    | (3, some content) => return .float (← float.ofItem? depth content)
    | (4, some content) => return .string (← text.ofItem? depth content)
    | (5, some content) => return .timestamp (← int64.ofItem? depth content)
    | (6, some content) => return .geometry (← geometry.ofItem? depth content)
    | _ => none

def feature : Layout Feature where
  toItem f := .array [text.toItem f.id, value.list.toItem f.values]
  ofItem? := structureOfItem? "id" "values" text value.list Feature.mk

end Layout

end SpillSort
