import SpillSort.SortKey.Basic
import SpillSort.SortKey.Registry

/-! # Comparing features by sort keys

A list of sort keys is resolved against a schema before any feature is read: each property becomes a
position and an ordering. The first key that cannot be resolved decides the answer. Comparing then
goes through the keys until one decides; the identifier has the last word unless it is left out.
-/

namespace SpillSort

/-- Why features of a schema cannot be sorted by some keys. -/
inductive Infeasible
  | noKeys
  | unknownProperty (name : String)
  | unorderable (name : String) (type : FieldType)
deriving DecidableEq, Repr

def Infeasible.message : Infeasible → String
  | .noKeys => "no sort keys given"
  | .unknownProperty name => s!"property '{name}' not found in schema"
  | .unorderable name type => s!"property '{name}' of type {type.name} has no ordering"

/-- A sort key bound to a schema. -/
inductive ResolvedKey
  | identifier (direction : Direction)
  | property (index : Nat) (direction : Direction) (ordering : Comparison Value)

namespace ResolvedKey

/-- The key's own say on two features. -/
def compare : ResolvedKey → Comparison Feature
  | .identifier direction, a, b => direction.apply (Ord.compare a.id b.id)
  | .property index direction ordering, a, b =>
    direction.apply (ordering (a.value index) (b.value index))

/-- The key bound to the first attribute of its name. -/
def resolve (schema : Schema) (registry : OrderingRegistry) : SortKey → Except Infeasible ResolvedKey
  | .identifier direction => .ok (.identifier direction)
  | .property name direction =>
    match schema.fields.findIdx? (·.name = name) with
    | none => .error (.unknownProperty name)
    | some index =>
      let type := (schema.fields.getD index default).type
      match registry.lookup type with
      | none => .error (.unorderable name type)
      | some ordering => .ok (.property index direction ordering)

end ResolvedKey

/-- Resolved keys, and whether the identifier decides between features that tie under all of them. -/
structure FeatureComparator where
  keys : List ResolvedKey
  identifierBreaksTies : Bool

namespace FeatureComparator

/-- The comparator of a list of keys, at least one, or the first fault among them. -/
def resolve (schema : Schema) (keys : List SortKey) (registry : OrderingRegistry) :
    Except Infeasible FeatureComparator :=
  if keys = [] then .error .noKeys
  else (keys.mapM (ResolvedKey.resolve schema registry)).map fun resolved => ⟨resolved, true⟩

/-- Features that tie under every key stay tied. -/
def withoutTieBreak (comparator : FeatureComparator) : FeatureComparator :=
  { comparator with identifierBreaksTies := false }

/-- The first key that tells the features apart decides. -/
def compareKeys : List ResolvedKey → Comparison Feature
  | [], _, _ => .eq
  | key :: keys, a, b => (key.compare a b).then (compareKeys keys a b)

def compare (comparator : FeatureComparator) : Comparison Feature := fun a b =>
  (compareKeys comparator.keys a b).then
    (if comparator.identifierBreaksTies then Ord.compare a.id b.id else .eq)

end FeatureComparator

/-- Whether features of the schema can be sorted by the keys. -/
def canSort (schema : Schema) (keys : List SortKey) (registry : OrderingRegistry) : Bool :=
  (FeatureComparator.resolve schema keys registry).isOk

end SpillSort
