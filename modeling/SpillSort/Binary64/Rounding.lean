import SpillSort.Binary64.Basic

/-! # Rounding to binary64

An exact ratio of whole numbers is rounded to the nearest number, a tie to the even significand, and
what lies beyond the largest number by half a step or more becomes infinite. Whole numbers, decimal
numbers and products with whole numbers are read through this one function.
-/

namespace SpillSort

/-- The quotient rounded to the nearest whole number, a tie to the even one. -/
def divideToEven (dividend divisor : Nat) : Nat :=
  let quotient := dividend / divisor
  let rest := dividend % divisor
  if 2 * rest < divisor then quotient
  else if divisor < 2 * rest then quotient + 1
  else quotient + quotient % 2

namespace Binary64

/-- The number nearest to `dividend / divisor` units. -/
def ofUnits (negative : Bool) (dividend divisor : Nat) : Binary64 :=
  let shift := (dividend / divisor).log2 - 52
  let significand := divideToEven dividend (divisor * 2 ^ shift)
  if significand = 2 ^ 53 then
    if 2044 < shift then infinity negative else ofParts negative (2 ^ 52) (shift + 1)
  else
    if 2045 < shift then infinity negative else ofParts negative significand shift

/-- The number nearest to an integer of 64 bits. -/
def ofInt64 (n : Int64) : Binary64 :=
  ofUnits (n.toInt < 0) (n.toInt.natAbs * 2 ^ 1074) 1

/-- The number nearest to a natural number. -/
def ofNat (n : Nat) : Binary64 := ofUnits false (n * 2 ^ 1074) 1

/-- The finite number `x` times `n`, rounded once. -/
def scaleBy (x : Binary64) (n : Nat) : Binary64 := ofUnits x.isNegative (x.magnitude * n) 1

/-- The whole part of a finite number's size. -/
def wholePart (x : Binary64) : Nat := x.magnitude / 2 ^ 1074

end Binary64

end SpillSort
