import SpillSort.Binary64.Decimal
import SpillSort.Text.Blank
import SpillSort.Text.Integer

/-! # Sizes with units

A size is a whole number of bytes, or a decimal number with a unit. Units of one letter, and those that
end in `b` alone, are powers of a thousand; those with an `i` are powers of 1024. Case does not count,
and the sign of the kelvin is a capital `K`.
-/

namespace SpillSort.ByteSize

/-- The largest size. -/
def limit : Nat := 2 ^ 64 - 1

/-- The bytes that a unit in lower case stands for. -/
def unit? (unit : String) : Option Nat :=
  match unit with
  | "b" => some 1
  | "k" | "kb" => some (1000 ^ 1)
  | "m" | "mb" => some (1000 ^ 2)
  | "g" | "gb" => some (1000 ^ 3)
  | "t" | "tb" => some (1000 ^ 4)
  | "p" | "pb" => some (1000 ^ 5)
  | "ki" | "kib" => some (1024 ^ 1)
  | "mi" | "mib" => some (1024 ^ 2)
  | "gi" | "gib" => some (1024 ^ 3)
  | "ti" | "tib" => some (1024 ^ 4)
  | "pi" | "pib" => some (1024 ^ 5)
  | _ => none

/-- A character of a decimal number without exponent. -/
def isNumeric (c : Char) : Bool := c.isDigit || c = '.'

/-- The sign of the unit kelvin. -/
def kelvinSign : Char := '\u212A'

/-- The lower case of a character, as far as units are concerned. -/
def toLower (c : Char) : Char := if c = kelvinSign then 'k' else c.toLower

/-- A decimal number with a unit, and white space between them or not. The product is rounded, and its
fraction is dropped. -/
def readScaled? (text : List Char) : Option Nat := do
  let number ← (Binary64.read (text.takeWhile isNumeric)).toOption
  let suffix := (text.dropWhile isNumeric).dropWhile Text.isBlank
  let unit ← unit? (String.ofList (suffix.map toLower))
  return min (number.scaleBy unit).wholePart limit

/-- The size a text stands for. -/
def read? (text : String) : Option Nat :=
  match Text.readNatural limit text.toList with
  | .ok size => some size
  | .error _ => readScaled? text.toList

end SpillSort.ByteSize
