import SpillSort.Binary64.Rounding
import SpillSort.Feature
import SpillSort.Order

/-! # Orderings of attribute values

Each scalar type has an ordering of all values, not only of its own: nulls stand first, two values of
the type compare as that type does, and anything else compares by the variant of the value. A
registry says which ordering a declared type uses; a type without one cannot be sorted by.
-/

namespace SpillSort

namespace Value

/-- The place of a value's variant among the variants. -/
def variantRank : Value → Nat
  | .null => 0
  | .boolean _ => 1
  | .integer _ => 2
  | .float _ => 3
  | .string _ => 4
  | .timestamp _ => 5
  | .geometry _ => 6

/-- Nulls first, then as `typed?` says, and by variant where it says nothing. -/
def nullsFirst (typed? : Value → Value → Option Ordering) : Comparison Value
  | .null, .null => .eq
  | .null, _ => .lt
  | _, .null => .gt
  | a, b => (typed? a b).getD (compare a.variantRank b.variantRank)

def compareBooleans : Comparison Value :=
  nullsFirst fun
    | .boolean a, .boolean b => some (compare a b)
    | _, _ => none

def compareIntegers : Comparison Value :=
  nullsFirst fun
    | .integer a, .integer b => some (compare a b)
    | _, _ => none

/-- The number of a float or an integer. -/
def number? : Value → Option Binary64
  | .float x => some x
  | .integer n => some (.ofInt64 n)
  | _ => none

/-- Integers compare with floats by their nearest float. -/
def compareFloats : Comparison Value :=
  nullsFirst fun a b =>
    match a.number?, b.number? with
    | some x, some y => some (x.totalCompare y)
    | _, _ => none

/-- Strings compare by code points, which is the order of their UTF-8 bytes. -/
def compareStrings : Comparison Value :=
  nullsFirst fun
    | .string a, .string b => some (compare a b)
    | _, _ => none

def compareTimestamps : Comparison Value :=
  nullsFirst fun
    | .timestamp a, .timestamp b => some (compare a b)
    | _, _ => none

end Value

/-- The ordering of each type that has one. -/
structure OrderingRegistry where
  lookup : FieldType → Option (Comparison Value)

namespace OrderingRegistry

def empty : OrderingRegistry := ⟨fun _ => none⟩

/-- The registry in which `type` has the given ordering instead of any other. -/
def register (registry : OrderingRegistry) (type : FieldType) (ordering : Comparison Value) :
    OrderingRegistry :=
  ⟨fun other => if other = type then some ordering else registry.lookup other⟩

/-- Every scalar type with its own ordering. Geometries have none. -/
def scalars : OrderingRegistry :=
  ⟨fun
    | .boolean => some Value.compareBooleans
    | .integer => some Value.compareIntegers
    | .float => some Value.compareFloats
    | .string => some Value.compareStrings
    | .timestamp => some Value.compareTimestamps
    | .geometry => none⟩

end OrderingRegistry

end SpillSort
