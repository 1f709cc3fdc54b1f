import Mathlib.Data.List.TakeWhile
import SpillSort.Binary64.Decimal
import SpillSort.Text.Integer

/-! # Numbers read back from their text

The text of a number stands for that number again, bit for bit, if it is not a NaN. Texts of integers do
as well.
-/

namespace SpillSort

namespace Binary64

/-! ## The parts of a number -/

theorem word_lt (x : Binary64) : x.word < 2 ^ 64 := x.bits.toNat_lt

theorem eq_of_word {x y : Binary64} (same : x.word = y.word) : x = y := by
  cases x
  cases y
  exact congrArg mk (UInt64.toNat_inj.mp same)

theorem word_ofParts (negative : Bool) (significand shift : Nat) :
    (ofParts negative significand shift).word =
      ((if negative then 2 ^ 63 else 0) +
        if significand < 2 ^ 52 then significand else (shift + 1) * 2 ^ 52 + (significand - 2 ^ 52)) % 2 ^ 64 :=
  UInt64.toNat_ofNat'

theorem significand_lt (x : Binary64) : x.significand < 2 ^ 53 := by
  have fraction_lt : x.fraction < 2 ^ 52 := Nat.mod_lt _ (by decide)
  unfold significand
  split <;> omega

/-- Below `2 ^ 52` a significand stands at the unit. -/
theorem le_significand_or (x : Binary64) : 2 ^ 52 ≤ x.significand ∨ x.shift = 0 := by
  unfold significand shift
  split <;> omega

theorem shift_le {x : Binary64} (finite : x.isFinite) : x.shift ≤ 2045 := by
  have exponent_lt : x.exponent < 2 ^ 11 := Nat.mod_lt _ (by decide)
  simp only [isFinite, decide_eq_true_eq] at finite
  unfold shift
  omega

/-- A number is its sign and its parts. -/
theorem ofParts_significand (x : Binary64) : ofParts x.isNegative x.significand x.shift = x := by
  apply eq_of_word
  have word_lt := x.word_lt
  have fraction_lt : x.fraction < 2 ^ 52 := Nat.mod_lt _ (by decide)
  have body : (if x.significand < 2 ^ 52 then x.significand
      else (x.shift + 1) * 2 ^ 52 + (x.significand - 2 ^ 52)) = x.exponent * 2 ^ 52 + x.fraction := by
    unfold significand shift
    split
    · omega
    · split <;> omega
  rw [word_ofParts, body]
  simp only [isNegative, exponent, fraction, decide_eq_true_eq]
  split <;> omega

/-! ## The sign -/

/-- The number with its sign changed if so asked. -/
def signed (negative : Bool) (x : Binary64) : Binary64 :=
  ⟨UInt64.ofNat ((if negative then 2 ^ 63 else 0) + x.word)⟩

theorem word_signed (negative : Bool) (x : Binary64) :
    (x.signed negative).word = ((if negative then 2 ^ 63 else 0) + x.word) % 2 ^ 64 :=
  UInt64.toNat_ofNat'

theorem signed_ofParts (negative : Bool) (significand shift : Nat) :
    (ofParts false significand shift).signed negative = ofParts negative significand shift := by
  apply eq_of_word
  simp only [word_signed, word_ofParts, Bool.false_eq_true, if_false, Nat.zero_add, Nat.add_mod_mod]

theorem signed_infinity (negative : Bool) : (infinity false).signed negative = infinity negative :=
  signed_ofParts negative _ _

theorem signed_ofUnits (negative : Bool) (dividend divisor : Nat) :
    (ofUnits false dividend divisor).signed negative = ofUnits negative dividend divisor := by
  simp only [ofUnits]
  split <;> split <;> simp only [signed_infinity, signed_ofParts]

theorem signed_ofDecimal (negative : Bool) (d : Decimal) :
    (ofDecimal false d).signed negative = ofDecimal negative d := by
  simp only [ofDecimal]
  split
  · exact signed_ofParts negative _ _
  split
  · exact signed_infinity negative
  split
  · exact signed_ofUnits negative _ _
  · exact signed_ofUnits negative _ _

theorem word_abs (x : Binary64) : x.abs.word = x.word % 2 ^ 63 := by
  have word_lt := x.word_lt
  simp only [abs, word, UInt64.toNat_ofNat']
  omega

theorem signed_abs (x : Binary64) : x.abs.signed x.isNegative = x := by
  apply eq_of_word
  have word_lt := x.word_lt
  simp only [word_signed, word_abs, isNegative, decide_eq_true_eq]
  split <;> omega

theorem isNegative_abs (x : Binary64) : x.abs.isNegative = false := by
  have bound : x.word % 2 ^ 63 < 2 ^ 63 := Nat.mod_lt _ (by decide)
  simp only [isNegative, word_abs, decide_eq_false_iff_not]
  omega

theorem exponent_abs (x : Binary64) : x.abs.exponent = x.exponent := by
  simp only [exponent, word_abs]
  omega

theorem fraction_abs (x : Binary64) : x.abs.fraction = x.fraction := by
  simp only [fraction, word_abs]
  omega

theorem isFinite_abs (x : Binary64) : x.abs.isFinite = x.isFinite := by
  simp only [isFinite, exponent_abs]

theorem magnitude_abs (x : Binary64) : x.abs.magnitude = x.magnitude := by
  simp only [magnitude, significand, shift, exponent_abs, fraction_abs]

theorem abs_of_isInfinite {x : Binary64} (infinite : x.isInfinite) : x.abs = infinity false := by
  apply eq_of_word
  obtain ⟨exponent_eq, fraction_eq⟩ : x.exponent = 2047 ∧ x.fraction = 0 := by simpa [isInfinite] using infinite
  simp only [exponent, fraction] at exponent_eq fraction_eq
  have word_eq : (infinity false).word = 2047 * 2 ^ 52 := rfl
  rw [word_abs, word_eq]
  omega

/-! ## Exact values -/

theorem divideToEven_mul (quotient : Nat) {divisor : Nat} (positive : 0 < divisor) :
    divideToEven (quotient * divisor) divisor = quotient := by
  simp only [divideToEven, Nat.mul_mod_left, Nat.mul_div_cancel _ positive]
  rw [if_pos (by omega)]

theorem log2_magnitude (x : Binary64) : x.magnitude.log2 - 52 = x.shift := by
  have below := x.significand_lt
  rcases x.le_significand_or with normal | atUnit
  · have positive : x.magnitude ≠ 0 := by
      have := Nat.two_pow_pos x.shift
      exact Nat.mul_ne_zero (by omega) (by omega)
    have lower : 52 + x.shift ≤ x.magnitude.log2 := by
      rw [Nat.le_log2 positive, Nat.pow_add]
      exact Nat.mul_le_mul_right _ normal
    have upper : x.magnitude.log2 < 53 + x.shift := by
      rw [Nat.log2_lt positive, Nat.pow_add]
      exact Nat.mul_lt_mul_of_pos_right below (Nat.two_pow_pos _)
    omega
  · have same : x.magnitude = x.significand := by simp [magnitude, atUnit]
    rw [same, atUnit]
    by_cases zero : x.significand = 0
    · rw [zero]
      rfl
    · have := (Nat.log2_lt zero).mpr below
      omega

/-- The size of a number is rounded to the number. -/
theorem ofUnits_magnitude {x : Binary64} (finite : x.isFinite) {divisor : Nat} (positive : 0 < divisor) :
    ofUnits x.isNegative (x.magnitude * divisor) divisor = x := by
  have below := x.significand_lt
  have shift_le := shift_le finite
  have reordered : x.magnitude * divisor = x.significand * (divisor * 2 ^ x.shift) := by
    rw [magnitude, Nat.mul_assoc, Nat.mul_comm divisor]
  simp only [ofUnits]
  rw [Nat.mul_div_cancel _ positive, log2_magnitude, reordered,
    divideToEven_mul _ (Nat.mul_pos positive (Nat.two_pow_pos _)), if_neg (by omega), if_neg (by omega),
    ofParts_significand]

/-! ## Decimals that read back -/

theorem ofDecimal_negSucc (negative : Bool) {digits n : Nat} (nonzero : digits ≠ 0)
    (large : n + 1 ≤ decimalLength digits + 400) :
    ofDecimal negative ⟨digits, .negSucc n⟩ = ofUnits negative (digits * 2 ^ 1074) (10 ^ (n + 1)) := by
  simp only [ofDecimal]
  rw [if_neg (by omega), if_neg (by omega)]

theorem ofDecimal_ofNat (negative : Bool) {digits zeros : Nat} (nonzero : digits ≠ 0) (small : zeros ≤ 400) :
    ofDecimal negative ⟨digits, .ofNat zeros⟩ = ofUnits negative (digits * 10 ^ zeros * 2 ^ 1074) 1 := by
  simp only [ofDecimal, Int.ofNat_eq_natCast]
  rw [if_neg (by omega), if_neg (by omega)]

theorem ofDecimal_of_decimalOfLength? {x : Binary64} {top : Int} {count : Nat} {d : Decimal}
    (found : x.decimalOfLength? top count = some d) : ofDecimal false d = x := by
  simp only [decimalOfLength?] at found
  split at found
  · next fits =>
    cases found
    exact fits.1
  split at found
  · next fits =>
    cases found
    exact fits
  · cases found

theorem ofDecimal_exactDecimal {x : Binary64} (finite : x.isFinite) (nonzero : x.magnitude ≠ 0)
    (positive : x.isNegative = false) : ofDecimal false x.exactDecimal = x := by
  have power : 10 ^ 674 ≤ 5 ^ 1074 := by decide +kernel
  have nonzero' (n : Nat) : x.magnitude * 5 ^ n ≠ 0 :=
    Nat.mul_ne_zero nonzero (Nat.pos_iff_ne_zero.mp (Nat.pow_pos (by decide)))
  -- What is below `10 ^ -400` is read as zero, so it matters how many digits there are.
  have long : 674 < decimalLength (x.magnitude * 5 ^ 1074) := by
    rw [decimalLength, Nat.lt_iff_add_one_le, ← Nat.not_lt, Nat.lt_add_one_iff,
      Nat.length_toDigits_le_iff (by decide) (by decide)]
    exact Nat.not_lt.mpr (Nat.le_trans power (Nat.le_mul_of_pos_left _ (Nat.pos_of_ne_zero nonzero)))
  have rounded (n : Nat) : ofUnits false (x.magnitude * 5 ^ n * 2 ^ n) (10 ^ n) = x := by
    rw [← positive, Nat.mul_assoc, ← Nat.mul_pow]
    exact ofUnits_magnitude finite (Nat.pow_pos (by decide))
  have large : 1073 + 1 ≤ decimalLength (x.magnitude * 5 ^ 1074) + 400 :=
    Nat.le_trans (by decide) (Nat.add_le_add_right long 400)
  have used := ofDecimal_negSucc false (nonzero' 1074) large
  simp only [Nat.reduceAdd] at used
  exact used.trans (rounded 1074)

theorem ofDecimal_shortestDecimal {x : Binary64} (finite : x.isFinite) (nonzero : x.magnitude ≠ 0)
    (positive : x.isNegative = false) : ofDecimal false x.shortestDecimal = x := by
  unfold shortestDecimal
  cases found : (List.range 18).findSome? (x.decimalOfLength? x.decimalTop) with
  | none => exact ofDecimal_exactDecimal finite nonzero positive
  | some d =>
    obtain ⟨count, -, fits⟩ := List.exists_of_findSome?_eq_some found
    exact ofDecimal_of_decimalOfLength? fits

/-! ## Reading digits -/

theorem readDecimal?_digits {digits : List Char} (some_digit : digits ≠ [])
    (all_digits : ∀ c ∈ digits, c.isDigit) :
    readDecimal? digits = some ⟨Nat.ofDigitChars 10 digits 0, 0⟩ := by
  have taken : digits.takeWhile Char.isDigit = digits := List.takeWhile_eq_self_iff.mpr all_digits
  have left : digits.dropWhile Char.isDigit = [] := List.dropWhile_eq_nil_iff.mpr all_digits
  simp [readDecimal?, taken, left, some_digit, readExponent?]

theorem readDecimal?_point {whole places : List Char} (some_digit : whole ≠ [])
    (all_digits : ∀ c ∈ whole ++ places, c.isDigit) :
    readDecimal? (whole ++ '.' :: places) =
      some ⟨Nat.ofDigitChars 10 (whole ++ places) 0, -places.length⟩ := by
  have before : ∀ c ∈ whole, c.isDigit := fun c present => all_digits c (List.mem_append_left _ present)
  have after : ∀ c ∈ places, c.isDigit := fun c present => all_digits c (List.mem_append_right _ present)
  have taken : (whole ++ '.' :: places).takeWhile Char.isDigit = whole := by
    simp [List.takeWhile_append_of_pos before]
  have left : (whole ++ '.' :: places).dropWhile Char.isDigit = '.' :: places := by
    simp [List.dropWhile_append_of_pos before]
  have taken' : places.takeWhile Char.isDigit = places := List.takeWhile_eq_self_iff.mpr after
  have left' : places.dropWhile Char.isDigit = [] := List.dropWhile_eq_nil_iff.mpr after
  simp [readDecimal?, taken, left, taken', left', some_digit, readExponent?]

end Binary64

namespace Decimal

/-- The same value without a positive exponent. -/
def spread (d : Decimal) : Decimal :=
  match d.exponent with
  | .ofNat zeros => ⟨d.digits * 10 ^ zeros, 0⟩
  | .negSucc _ => d

theorem ofDecimal_spread (negative : Bool) {d : Decimal} (small : d.exponent ≤ 400) :
    Binary64.ofDecimal negative d.spread = Binary64.ofDecimal negative d := by
  obtain ⟨digits, zeros | places⟩ := d
  · by_cases nothing : digits = 0
    · subst nothing
      simp [spread, Binary64.ofDecimal]
    · have nonzero : digits * 10 ^ zeros ≠ 0 :=
        Nat.mul_ne_zero nothing (Nat.pos_iff_ne_zero.mp (Nat.pow_pos (by decide)))
      rw [Binary64.ofDecimal_ofNat negative nothing (Int.ofNat_le.mp small)]
      exact (Binary64.ofDecimal_ofNat negative nonzero (Nat.zero_le _)).trans (by rw [Nat.pow_zero, Nat.mul_one])
  · rfl

theorem isDigit_of_mem_toDigits {n : Nat} {c : Char} (present : c ∈ Nat.toDigits 10 n) : c.isDigit :=
  Nat.isDigit_of_mem_toDigits (by decide) (by decide) present

/-- The digits of a decimal are read as they were written. -/
theorem readDecimal?_positional (d : Decimal) : Binary64.readDecimal? d.positional = some d.spread := by
  obtain ⟨digits, zeros | n⟩ := d
  · have all_digits : ∀ c ∈ Nat.toDigits 10 digits ++ List.replicate zeros '0', c.isDigit := by
      intro c present
      rcases List.mem_append.mp present with digit | zero
      · exact isDigit_of_mem_toDigits digit
      · rw [List.eq_of_mem_replicate zero]
        rfl
    refine (Binary64.readDecimal?_digits (by simp [Nat.toDigits_ne_nil]) all_digits).trans ?_
    rw [Nat.ofDigitChars_append, Nat.ofDigitChars_ten_toDigits, Nat.ofDigitChars_replicate_zero, Nat.mul_comm]
    rfl
  · have all_digits : ∀ c ∈ Nat.toDigits 10 digits, c.isDigit := fun c => isDigit_of_mem_toDigits
    simp only [positional]
    split
    · next among =>
      have whole : (Nat.toDigits 10 digits).take ((Nat.toDigits 10 digits).length - (n + 1)) ≠ [] := by
        rw [← List.length_pos_iff, List.length_take]
        omega
      rw [Binary64.readDecimal?_point whole (by simpa only [List.take_append_drop] using all_digits),
        List.take_append_drop, Nat.ofDigitChars_ten_toDigits, List.length_drop, Nat.sub_sub_self (Nat.le_of_lt among)]
      rfl
    · next front =>
      have padded : ∀ c ∈ ['0'] ++ (List.replicate (n + 1 - (Nat.toDigits 10 digits).length) '0' ++ Nat.toDigits 10 digits),
          c.isDigit := by
        intro c present
        simp only [List.mem_append, List.mem_singleton, List.mem_replicate] at present
        rcases present with rfl | ⟨-, rfl⟩ | digit
        · rfl
        · rfl
        · exact all_digits c digit
      refine (Binary64.readDecimal?_point (List.cons_ne_nil _ _) padded).trans ?_
      rw [Nat.ofDigitChars_append, Nat.ofDigitChars_append, Nat.ofDigitChars_replicate_zero, List.length_append,
        List.length_replicate, Nat.sub_add_cancel (Nat.le_of_not_lt front)]
      exact congrArg (fun value => some (Decimal.mk value (.negSucc n))) (Nat.ofDigitChars_ten_toDigits (n := digits))

end Decimal

namespace Binary64

/-! ## Reading a number again -/

/-- What is read from the text of a number: the number, or one NaN for all of them. -/
def settled (x : Binary64) : Binary64 := if x.isNaN then nan false else x

/-- A decimal that does not begin with a sign is read with the sign put before it. -/
theorem read_of_decimal {negative : Bool} {c : Char} {body : List Char} {d : Decimal} (plus : c ≠ '+') (minus : c ≠ '-')
    (decimal : readDecimal? (c :: body) = some d) :
    read (if negative then '-' :: c :: body else c :: body) = .ok (ofDecimal negative d) := by
  cases negative with
  | true => simp only [read, if_true, List.cons_ne_nil, if_false, decimal]
  | false => simp [read, plus, minus, decimal]

theorem read_of_word {negative : Bool} {c : Char} {body : List Char} {x : Binary64} (plus : c ≠ '+') (minus : c ≠ '-')
    (noDecimal : readDecimal? (c :: body) = none) (word : readWord? negative (c :: body) = some x) :
    read (if negative then '-' :: c :: body else c :: body) = .ok x := by
  cases negative with
  | true => simp only [read, if_true, List.cons_ne_nil, if_false, noDecimal, word]
  | false => simp [read, plus, minus, noDecimal, word]

theorem positional_cons (d : Decimal) : ∃ c body, d.positional = c :: body ∧ c.isDigit := by
  obtain ⟨digits, exponent⟩ := d
  obtain ⟨c, rest, digits_eq⟩ := List.exists_cons_of_ne_nil (Nat.toDigits_ne_nil : Nat.toDigits 10 digits ≠ [])
  have digit : c.isDigit := Decimal.isDigit_of_mem_toDigits (digits_eq ▸ List.mem_cons_self)
  cases exponent with
  | ofNat zeros => exact ⟨c, _, by simp only [Decimal.positional, digits_eq, List.cons_append]; rfl, digit⟩
  | negSucc n =>
    simp only [Decimal.positional, digits_eq]
    split
    · next among =>
      obtain ⟨count, count_eq⟩ := Nat.exists_eq_add_of_lt among
      rw [count_eq, show n + 1 + count + 1 - (n + 1) = count + 1 by omega]
      exact ⟨c, _, rfl, digit⟩
    · exact ⟨'0', _, rfl, rfl⟩

theorem exponent_le_of_ofDecimal {x : Binary64} {d : Decimal} (finite : x.isFinite) (nonzero : x.magnitude ≠ 0)
    (same : ofDecimal false d = x) : d.exponent ≤ 400 := by
  refine Int.not_lt.mp fun large => ?_
  simp only [ofDecimal] at same
  rw [if_pos large] at same
  split at same
  · rw [← same] at nonzero
    exact nonzero rfl
  · rw [← same] at finite
    cases finite

theorem read_of_isFinite {x : Binary64} (finite : x.isFinite) (nonzero : x.magnitude ≠ 0) :
    read (if x.isNegative then '-' :: x.abs.shortestDecimal.positional else x.abs.shortestDecimal.positional) =
      .ok x := by
  have finite' : x.abs.isFinite := x.isFinite_abs.trans finite
  have nonzero' : x.abs.magnitude ≠ 0 := x.magnitude_abs ▸ nonzero
  have fits := ofDecimal_shortestDecimal finite' nonzero' x.isNegative_abs
  obtain ⟨c, body, text_eq, digit⟩ := positional_cons x.abs.shortestDecimal
  have reading := x.abs.shortestDecimal.readDecimal?_positional
  rw [text_eq] at reading ⊢
  rw [read_of_decimal (by rintro rfl; cases digit) (by rintro rfl; cases digit) reading,
    Decimal.ofDecimal_spread _ (exponent_le_of_ofDecimal finite' nonzero' fits), ← signed_ofDecimal, fits, signed_abs]

theorem eq_of_abs_eq {x : Binary64} {significand shift : Nat} (same : x.abs = ofParts false significand shift) :
    ofParts x.isNegative significand shift = x := by
  rw [← signed_ofParts, ← same, signed_abs]

/-- A number is read from its text. -/
theorem read_write (x : Binary64) : read x.write = .ok x.settled := by
  unfold write writeSize settled
  by_cases undefined : x.isNaN
  · simp only [undefined, not_true_eq_false, and_false, if_false, if_true]
    rfl
  simp only [undefined, Bool.false_eq_true, not_false_eq_true, and_true, if_false]
  by_cases infinite : x.isInfinite
  · simp only [infinite, if_true]
    have word : readWord? x.isNegative ['i', 'n', 'f'] = some (infinity x.isNegative) := rfl
    rw [read_of_word (by decide) (by decide) rfl word]
    exact congrArg Except.ok (eq_of_abs_eq (abs_of_isInfinite infinite))
  have finite : x.isFinite := by
    simp only [isNaN, isInfinite, isFinite, Bool.and_eq_true, decide_eq_true_eq] at *
    omega
  simp only [infinite, Bool.false_eq_true, if_false]
  by_cases zero : x.magnitude = 0
  · simp only [zero, if_true]
    have decimal : readDecimal? ['0'] = some ⟨0, 0⟩ := rfl
    rw [read_of_decimal (by decide) (by decide) decimal]
    refine congrArg Except.ok (eq_of_abs_eq ?_)
    have rounded := ofUnits_magnitude (x.isFinite_abs.trans finite) (Nat.one_pos)
    rw [magnitude_abs, zero, isNegative_abs] at rounded
    exact rounded.symm
  · simp only [zero, if_false]
    exact read_of_isFinite finite zero

example : read ['N', 'a', 'N'] = .ok (nan false) := rfl

/-! ## The characters of a number -/

/-- The characters that numbers are written with. -/
def isNumeral (c : Char) : Bool := c.isDigit || ['-', '.', 'N', 'a', 'i', 'n', 'f'].contains c

theorem isNumeral_of_mem_positional {d : Decimal} {c : Char} (present : c ∈ d.positional) : isNumeral c := by
  have digit {c : Char} (among : c ∈ Nat.toDigits 10 d.digits) : isNumeral c := by
    simp only [isNumeral, Decimal.isDigit_of_mem_toDigits among, Bool.true_or]
  obtain ⟨digits, zeros | n⟩ := d
  · simp only [Decimal.positional, List.mem_append, List.mem_replicate] at present
    rcases present with among | ⟨-, rfl⟩
    · exact digit among
    · rfl
  · simp only [Decimal.positional] at present
    split at present
    · simp only [List.mem_append, List.mem_cons] at present
      rcases present with among | rfl | among
      · exact digit (List.mem_of_mem_take among)
      · rfl
      · exact digit (List.mem_of_mem_drop among)
    · simp only [List.mem_cons, List.mem_append, List.mem_replicate] at present
      rcases present with rfl | rfl | ⟨-, rfl⟩ | among
      · rfl
      · rfl
      · rfl
      · exact digit among

theorem isNumeral_of_mem_writeSize {x : Binary64} {c : Char} (present : c ∈ x.writeSize) : isNumeral c := by
  unfold writeSize at present
  split at present
  · exact List.all_eq_true.mp (by decide : ['N', 'a', 'N'].all isNumeral) c present
  split at present
  · exact List.all_eq_true.mp (by decide : ['i', 'n', 'f'].all isNumeral) c present
  split at present
  · exact List.all_eq_true.mp (by decide : ['0'].all isNumeral) c present
  · exact isNumeral_of_mem_positional present

theorem isNumeral_of_mem_write {x : Binary64} {c : Char} (present : c ∈ x.write) : isNumeral c := by
  unfold write at present
  split at present
  · rcases List.mem_cons.mp present with rfl | among
    · rfl
    · exact isNumeral_of_mem_writeSize among
  · exact isNumeral_of_mem_writeSize present

/-- A text that can be read is not empty. -/
theorem write_ne_nil (x : Binary64) : x.write ≠ [] := by
  intro none
  have reading := x.read_write
  rw [none] at reading
  cases reading

end Binary64

/-! ## Integers -/

namespace Text

theorem digit?_of_isDigit {c : Char} (digit : c.isDigit) : digit? c = some (c.toNat - '0'.toNat) := by
  have bounds : '0' ≤ c ∧ c ≤ '9' := by
    simp only [Char.isDigit, Bool.and_eq_true, decide_eq_true_eq] at digit
    exact digit
  simp only [digit?, bounds, and_self, if_true]

theorem readDigits_eq {limit : Nat} {beyond : IntegerFault} {digits : List Char} {start : Nat}
    (all_digits : ∀ c ∈ digits, c.isDigit) (fits : Nat.ofDigitChars 10 digits start ≤ limit) :
    readDigits limit beyond start digits = .ok (Nat.ofDigitChars 10 digits start) := by
  induction digits generalizing start with
  | nil => rfl
  | cons c digits ih =>
    -- A number only grows with its digits: the whole within the limit keeps every front within it.
    rw [Nat.ofDigitChars_cons, Nat.mul_comm] at fits ⊢
    have onward : start * 10 + (c.toNat - '0'.toNat) ≤ limit := by
      rw [Nat.ofDigitChars_eq_ofDigitChars_zero] at fits
      exact Nat.le_trans (Nat.le_mul_of_pos_left _ (Nat.pow_pos (by decide)))
        (Nat.le_trans (Nat.le_add_right _ _) fits)
    unfold readDigits
    rw [digit?_of_isDigit (all_digits c List.mem_cons_self)]
    dsimp only
    rw [if_pos onward]
    exact ih (fun other present => all_digits other (List.mem_cons_of_mem c present)) fits

theorem readDigits_toDigits {limit n : Nat} (beyond : IntegerFault) (fits : n ≤ limit) :
    readDigits limit beyond 0 (Nat.toDigits 10 n) = .ok n := by
  rw [readDigits_eq (fun c => Decimal.isDigit_of_mem_toDigits), Nat.ofDigitChars_ten_toDigits]
  rwa [Nat.ofDigitChars_ten_toDigits]

/-- Digits alone are read as a number without sign. -/
theorem readInt64_of_isDigit {c : Char} {digits : List Char} (digit : c.isDigit) :
    readInt64 (c :: digits) =
      (readDigits (2 ^ 63 - 1) .tooLarge 0 (c :: digits)).map fun n => Int64.ofInt n := by
  have minus : c ≠ '-' := by
    rintro rfl
    cases digit
  have plus : c ≠ '+' := by
    rintro rfl
    cases digit
  simp [readInt64, readNatural, minus, plus]

theorem readInt64_of_minus (c : Char) (digits : List Char) :
    readInt64 ('-' :: c :: digits) =
      (readDigits (2 ^ 63) .tooSmall 0 (c :: digits)).map fun n => Int64.ofInt (-(n : Int)) :=
  rfl

/-- An integer is read from its text. -/
theorem readInt64_writeInt64 (n : Int64) : readInt64 (writeInt64 n).toList = .ok n := by
  have lower := n.le_toInt
  have upper := n.toInt_lt
  obtain ⟨c, digits, digits_eq⟩ :=
    List.exists_cons_of_ne_nil (Nat.toDigits_ne_nil : Nat.toDigits 10 n.toInt.natAbs ≠ [])
  have digit : c.isDigit := Decimal.isDigit_of_mem_toDigits (digits_eq ▸ List.mem_cons_self)
  unfold writeInt64
  rw [Int.toString_eq_repr, Int.repr_eq_if]
  split
  · next natural =>
    rw [Nat.toList_repr, show n.toInt.toNat = n.toInt.natAbs by omega, digits_eq, readInt64_of_isDigit digit,
      ← digits_eq, readDigits_toDigits _ (by omega)]
    refine congrArg Except.ok ?_
    dsimp only
    rw [Int.natAbs_of_nonneg natural, Int64.ofInt_toInt]
  · next negative =>
    rw [String.toList_append, Nat.toList_repr, show (-n.toInt).toNat = n.toInt.natAbs by omega, digits_eq]
    have minus : "-".toList = ['-'] := by simp
    rw [minus, List.singleton_append, readInt64_of_minus, ← digits_eq, readDigits_toDigits _ (by omega)]
    refine congrArg Except.ok ?_
    dsimp only
    rw [show -(n.toInt.natAbs : Int) = n.toInt by omega, Int64.ofInt_toInt]

theorem writeInt64_ne_empty (n : Int64) : writeInt64 n ≠ "" := by
  intro none
  have reading := readInt64_writeInt64 n
  rw [none] at reading
  cases reading

end Text

end SpillSort
