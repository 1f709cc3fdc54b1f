import SpillSort.Bytes

/-! # Binary64 numbers

Floating point numbers are kept as their 64 bits, so that every NaN and both zeros stay apart and
records survive storage bit for bit. A finite number is a sign and a whole number of units, the unit
being the smallest positive number, two to the power of minus 1074.
-/

namespace SpillSort

/-- A number in the interchange format of 64 bits. -/
structure Binary64 where
  bits : UInt64
deriving DecidableEq, Repr, Inhabited

namespace Binary64

/-- The bits as a number. -/
def word (x : Binary64) : Nat := x.bits.toNat

def isNegative (x : Binary64) : Bool := 2 ^ 63 ≤ x.word

/-- The exponent field, eleven bits wide. -/
def exponent (x : Binary64) : Nat := x.word / 2 ^ 52 % 2 ^ 11

/-- The fraction field, 52 bits wide. -/
def fraction (x : Binary64) : Nat := x.word % 2 ^ 52

def isNaN (x : Binary64) : Bool := x.exponent = 2047 && x.fraction ≠ 0

def isInfinite (x : Binary64) : Bool := x.exponent = 2047 && x.fraction = 0

def isFinite (x : Binary64) : Bool := x.exponent ≠ 2047

/-- The significand with its hidden bit. -/
def significand (x : Binary64) : Nat :=
  if x.exponent = 0 then x.fraction else 2 ^ 52 + x.fraction

/-- How many places the significand stands above the unit. -/
def shift (x : Binary64) : Nat := x.exponent - 1

/-- The size of a finite number, in units. -/
def magnitude (x : Binary64) : Nat := x.significand * 2 ^ x.shift

def isZero (x : Binary64) : Bool := x.isFinite && x.magnitude = 0

/-- The number with a given sign, significand below `2 ^ 53` and shift. A significand below `2 ^ 52`
stands at shift zero. -/
def ofParts (negative : Bool) (significand shift : Nat) : Binary64 :=
  let body :=
    if significand < 2 ^ 52 then significand
    else (shift + 1) * 2 ^ 52 + (significand - 2 ^ 52)
  ⟨UInt64.ofNat ((if negative then 2 ^ 63 else 0) + body)⟩

def infinity (negative : Bool) : Binary64 := ofParts negative (2 ^ 52) 2046

/-- The quiet NaN without further content. -/
def nan (negative : Bool) : Binary64 := ofParts negative (2 ^ 52 + 2 ^ 51) 2046

/-- The same number without its sign. -/
def abs (x : Binary64) : Binary64 := ⟨UInt64.ofNat (x.word % 2 ^ 63)⟩

/-- The place of a number in the total order: negative NaNs, negative numbers from infinity to zero,
positive numbers from zero to infinity, positive NaNs. -/
def rank (x : Binary64) : Nat :=
  if x.isNegative then 2 ^ 64 - 1 - x.word else 2 ^ 63 + x.word

/-- The total order of all bit patterns. -/
def totalCompare (x y : Binary64) : Ordering := compare x.rank y.rank

/-- Equality of values: a NaN equals nothing, and the two zeros are equal. -/
def sameValue (x y : Binary64) : Bool :=
  !x.isNaN && !y.isNaN && (x == y || (x.isZero && y.isZero))

end Binary64

end SpillSort
