import SpillSort.Bytes

/-! # Integers as text

Decimal integers with an optional sign. Reading goes from left to right and stops at the first
fault, so a text that first leaves the range and then has a bad character is out of range.
-/

namespace SpillSort.Text

/-- Why a text is not an integer of the range asked for. -/
inductive IntegerFault
  | empty
  | badDigit
  | tooLarge
  | tooSmall
deriving DecidableEq, Repr

def IntegerFault.message : IntegerFault → String
  | .empty => "cannot parse integer from empty string"
  | .badDigit => "invalid digit found in string"
  | .tooLarge => "number too large to fit in target type"
  | .tooSmall => "number too small to fit in target type"

/-- The value of a decimal digit. -/
def digit? (c : Char) : Option Nat :=
  if '0' ≤ c ∧ c ≤ '9' then some (c.toNat - '0'.toNat) else none

/-- Digits read on from `value`, which may not grow past `limit`. -/
def readDigits (limit : Nat) (beyond : IntegerFault) : Nat → List Char → Except IntegerFault Nat
  | value, [] => .ok value
  | value, c :: rest =>
    match digit? c with
    | none => .error .badDigit
    | some digit =>
      if value * 10 + digit ≤ limit then readDigits limit beyond (value * 10 + digit) rest
      else .error beyond

/-- A number without sign, at least one digit, up to `limit`; a plus may stand before it. -/
def readNatural (limit : Nat) : List Char → Except IntegerFault Nat
  | [] => .error .empty
  | ['+'] => .error .badDigit
  | '+' :: digits => readDigits limit .tooLarge 0 digits
  | digits => readDigits limit .tooLarge 0 digits

/-- A signed number of 64 bits. -/
def readInt64 : List Char → Except IntegerFault Int64
  | ['-'] => .error .badDigit
  | '-' :: digits =>
    (readDigits (2 ^ 63) .tooSmall 0 digits).map fun n => Int64.ofInt (-(n : Int))
  | text => (readNatural (2 ^ 63 - 1) text).map fun n => Int64.ofInt n

/-- The shortest decimal form. -/
def writeInt64 (n : Int64) : String := toString n.toInt

end SpillSort.Text
