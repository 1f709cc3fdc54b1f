import SpillSort.Binary64.Rounding

/-! # Binary64 numbers as decimal text

A number is written with the fewest digits that read back as the same number, of those the ones
nearest to its value, and without an exponent. Reading also takes exponents, a sign, and the words
for infinity and NaN in any case. That a written number reads back is built in: a digit count is
used only if reading has given the number again, and the exact expansion stands behind them all.
-/

namespace SpillSort

/-- The value `digits * 10 ^ exponent`. -/
structure Decimal where
  digits : Nat
  exponent : Int
deriving DecidableEq, Repr

/-- How many digits a number has in decimal. -/
def decimalLength (n : Nat) : Nat := (Nat.toDigits 10 n).length

namespace Decimal

/-- Digits, with a point among them or before them where it is needed. -/
def positional (d : Decimal) : List Char :=
  let digits := Nat.toDigits 10 d.digits
  match d.exponent with
  | .ofNat zeros => digits ++ List.replicate zeros '0'
  | .negSucc n =>
    let places := n + 1
    if places < digits.length then
      digits.take (digits.length - places) ++ '.' :: digits.drop (digits.length - places)
    else '0' :: '.' :: (List.replicate (places - digits.length) '0' ++ digits)

end Decimal

namespace Binary64

/-- The number nearest to a decimal value. Every value from `10 ^ 400` on is infinite, and every
value below `10 ^ -400` is zero. -/
def ofDecimal (negative : Bool) (d : Decimal) : Binary64 :=
  if d.digits = 0 ∨ d.exponent + decimalLength d.digits < -400 then ofParts negative 0 0
  else if 400 < d.exponent then infinity negative
  else match d.exponent with
    | .ofNat e => ofUnits negative (d.digits * 10 ^ e * 2 ^ 1074) 1
    | .negSucc e => ofUnits negative (d.digits * 2 ^ 1074) (10 ^ (e + 1))

/-- Why a text is not a number. -/
inductive TextFault
  | empty
  | invalid
deriving DecidableEq, Repr

def TextFault.message : TextFault → String
  | .empty => "cannot parse float from empty string"
  | .invalid => "invalid float literal"

/-- The exponent at the end of a number: nothing, or `e` with a whole number. -/
def readExponent? : List Char → Option Int
  | [] => some 0
  | e :: rest =>
    if e = 'e' ∨ e = 'E' then
      let (negative, digits) := match rest with
        | '-' :: digits => (true, digits)
        | '+' :: digits => (false, digits)
        | digits => (false, digits)
      if digits = [] ∨ ¬ digits.all Char.isDigit then none
      else
        let size : Int := Nat.ofDigitChars 10 digits 0
        some (if negative then -size else size)
    else none

/-- Digits with at most one point among them, at least one digit, and an exponent or none. -/
def readDecimal? (text : List Char) : Option Decimal :=
  let whole := text.takeWhile Char.isDigit
  let afterWhole := text.dropWhile Char.isDigit
  let (places, afterPlaces) := match afterWhole with
    | '.' :: rest => (rest.takeWhile Char.isDigit, rest.dropWhile Char.isDigit)
    | rest => ([], rest)
  if whole ++ places = [] then none
  else (readExponent? afterPlaces).map fun exponent =>
    ⟨Nat.ofDigitChars 10 (whole ++ places) 0, exponent - places.length⟩

/-- The word for infinity or NaN, in any case. -/
def readWord? (negative : Bool) (text : List Char) : Option Binary64 :=
  let word := String.ofList (text.map Char.toLower)
  if word = "inf" ∨ word = "infinity" then some (infinity negative)
  else if word = "nan" then some (nan negative)
  else none

/-- The number a text stands for. -/
def read (text : List Char) : Except TextFault Binary64 :=
  if text = [] then .error .empty
  else
    let (negative, body) := match text with
      | '-' :: body => (true, body)
      | '+' :: body => (false, body)
      | body => (false, body)
    match readDecimal? body with
    | some d => .ok (ofDecimal negative d)
    | none =>
      match readWord? negative body with
      | some x => .ok x
      | none => .error .invalid

/-- The decimal exponent above a positive finite number: it is below `10` to this power, and not
below `10` to one less. -/
def decimalTop (x : Binary64) : Int :=
  decimalLength (x.magnitude * 10 ^ 400 / 2 ^ 1074) - 400

/-- The decimal of `count` digits that reads back as the positive number `x`; of two, the nearer one,
and the larger one if both are equally near. With no digits it is the power of ten above `x`, whose
exponent is `top`. -/
def decimalOfLength? (x : Binary64) (top : Int) (count : Nat) : Option Decimal :=
  let exponent := top - count
  let dividend := x.magnitude * 10 ^ (-exponent).toNat
  let divisor := 2 ^ 1074 * 10 ^ exponent.toNat
  let low : Decimal := ⟨dividend / divisor, exponent⟩
  let high : Decimal := ⟨dividend / divisor + 1, exponent⟩
  let lowFits := ofDecimal false low = x
  let highFits := ofDecimal false high = x
  if lowFits ∧ ¬ (highFits ∧ divisor ≤ 2 * (dividend % divisor)) then some low
  else if highFits then some high
  else none

/-- The value of a finite number, every digit of it. -/
def exactDecimal (x : Binary64) : Decimal := ⟨x.magnitude * 5 ^ 1074, -1074⟩

/-- The shortest decimal that reads back as the positive finite number `x`. Seventeen digits are
always enough. -/
def shortestDecimal (x : Binary64) : Decimal :=
  ((List.range 18).findSome? (x.decimalOfLength? x.decimalTop)).getD x.exactDecimal

/-- A number without its sign. -/
def writeSize (x : Binary64) : List Char :=
  if x.isNaN then ['N', 'a', 'N']
  else if x.isInfinite then ['i', 'n', 'f']
  else if x.magnitude = 0 then ['0']
  else x.abs.shortestDecimal.positional

/-- The text of a number. The sign of a NaN is not written. -/
def write (x : Binary64) : List Char :=
  if x.isNegative ∧ ¬ x.isNaN then '-' :: x.writeSize else x.writeSize

def toText (x : Binary64) : String := String.ofList x.write

end Binary64

end SpillSort
