import SpillSort.Text.Split

/-! # Sort keys and their text

A sort key is the feature identifier or a named attribute, with a direction. Its text is a reserved
word, or a name that may be followed by a direction. The last colon divides, so a name may hold
colons, and a key of the form `name:asc` names any attribute at all.
-/

namespace SpillSort

inductive Direction
  | ascending
  | descending
deriving DecidableEq, Repr, Inhabited

/-- An ordering read in this direction. -/
def Direction.apply : Direction → Ordering → Ordering
  | .ascending, ordering => ordering
  | .descending, ordering => ordering.swap

/-- What features are sorted by. -/
inductive SortKey
  | identifier (direction : Direction)
  | property (name : String) (direction : Direction)
deriving DecidableEq, Repr, Inhabited

namespace SortKey

/-- Why a text is not a sort key. -/
inductive Fault
  | unknownDirection (text : String)
  | noName (key : String)
deriving DecidableEq, Repr

def Fault.message : Fault → String
  | .unknownDirection text => s!"unknown sort order '{text}', asc or desc expected"
  | .noName key => s!"sort key '{key}' has no property name"

/-- The text that reads back as this key. -/
def text : SortKey → String
  | .identifier .ascending => "natural"
  | .identifier .descending => "reverse"
  | .property name .ascending => name ++ ":asc"
  | .property name .descending => name ++ ":desc"

/-- A property key, if the name is not empty. `key` is the whole text. -/
def named (key : String) (name : List Char) (direction : Direction) : Except Fault SortKey :=
  if name = [] then .error (.noName key) else .ok (.property (String.ofList name) direction)

/-- The key of a text. -/
def read (key : String) : Except Fault SortKey :=
  match Text.splitLast? ':' key.toList with
  | some (name, ['a', 's', 'c']) => named key name .ascending
  | some (name, ['d', 'e', 's', 'c']) => named key name .descending
  | some (_, direction) => .error (.unknownDirection (String.ofList direction))
  | none =>
    if key = "natural" then .ok (.identifier .ascending)
    else if key = "reverse" then .ok (.identifier .descending)
    else named key key.toList .ascending

end SortKey

end SpillSort
