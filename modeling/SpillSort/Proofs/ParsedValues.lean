import SpillSort.Proofs.KeyOrder
import SpillSort.Proofs.TableReading

/-! # Values that were read

What is read from a table can be written and read again: it is never empty, and a NaN among it is one of the two that
have a word. Of these only the one with a sign is changed by that.
-/

namespace SpillSort

/-! ## Numbers -/

namespace Binary64

/-- A number made of parts that are in bounds is no NaN. -/
theorem isNaN_ofParts (negative : Bool) {significand shift : Nat} (small : significand < 2 ^ 53)
    (bounded : shift ≤ 2045) : (ofParts negative significand shift).isNaN = false := by
  have sign : (if negative then 2 ^ 63 else 0 : Nat) = 0 ∨ (if negative then 2 ^ 63 else 0 : Nat) = 2 ^ 63 := by
    cases negative with
    | true => exact .inr rfl
    | false => exact .inl rfl
  have exponent_ne : (ofParts negative significand shift).exponent ≠ 2047 := by
    rw [exponent, word_ofParts]
    generalize (if negative then 2 ^ 63 else 0 : Nat) = top at sign
    split
    · omega
    · omega
  simp [isNaN, exponent_ne]

theorem isNaN_infinity (negative : Bool) : (infinity negative).isNaN = false := by
  cases negative with
  | true => rfl
  | false => rfl

theorem divideToEven_le (dividend divisor : Nat) : divideToEven dividend divisor ≤ dividend / divisor + 1 := by
  simp only [divideToEven]
  split
  · omega
  · split
    · omega
    · omega

/-- Rounding gives a number. -/
theorem isNaN_ofUnits (negative : Bool) (dividend divisor : Nat) : (ofUnits negative dividend divisor).isNaN = false := by
  have rounded := divideToEven_le dividend (divisor * 2 ^ ((dividend / divisor).log2 - 52))
  have below : dividend / (divisor * 2 ^ ((dividend / divisor).log2 - 52)) < 2 ^ 53 := by
    rw [← Nat.div_div_eq_div_mul, Nat.div_lt_iff_lt_mul (Nat.two_pow_pos _), ← Nat.pow_add]
    rcases Nat.eq_zero_or_pos (dividend / divisor) with zero | positive
    · rw [zero]
      exact Nat.two_pow_pos _
    · exact (Nat.log2_lt (by omega)).mp (by omega)
  simp only [ofUnits]
  split
  · split
    · exact isNaN_infinity negative
    · exact isNaN_ofParts negative (by decide) (by omega)
  · split
    · exact isNaN_infinity negative
    · exact isNaN_ofParts negative (by omega) (by omega)

theorem isNaN_ofDecimal (negative : Bool) (d : Decimal) : (ofDecimal negative d).isNaN = false := by
  unfold ofDecimal
  split
  · exact isNaN_ofParts negative (by decide) (by decide)
  · split
    · exact isNaN_infinity negative
    · split
      · exact isNaN_ofUnits _ _ _
      · exact isNaN_ofUnits _ _ _

theorem eq_nan_of_readWord? {negative : Bool} {text : List Char} {x : Binary64} (word : readWord? negative text = some x)
    (isNaN : x.isNaN) : x = nan negative := by
  unfold readWord? at word
  dsimp only at word
  split at word
  · rw [← Option.some.inj word, isNaN_infinity] at isNaN
    cases isNaN
  · split at word
    · exact (Option.some.inj word).symm
    · cases word

/-- A NaN that was read is the one of its sign. -/
theorem eq_nan_of_read {text : List Char} {x : Binary64} (found : read text = .ok x) (isNaN : x.isNaN) :
    ∃ negative, x = nan negative := by
  unfold read at found
  split at found
  · cases found
  · dsimp only at found
    split at found
    · cases found
      rw [isNaN_ofDecimal] at isNaN
      cases isNaN
    · split at found
      · next word =>
        cases found
        exact ⟨_, eq_nan_of_readWord? word isNaN⟩
      · cases found

/-- Only the NaN with a sign is read otherwise than it was. -/
theorem settled_of_read {text : List Char} {x : Binary64} (found : read text = .ok x) (unsigned : x ≠ nan true) :
    x.settled = x := by
  unfold settled
  split
  · next isNaN =>
    obtain ⟨negative, rfl⟩ := eq_nan_of_read found isNaN
    cases negative with
    | true => exact absurd rfl unsigned
    | false => rfl
  · rfl

end Binary64

/-! ## Geometries -/

namespace Text

theorem splitAll_ne_nil (mark : Char) (text : List Char) : splitAll mark text ≠ [] := by
  cases text with
  | nil => exact List.cons_ne_nil _ _
  | cons c rest =>
    unfold splitAll
    split
    · exact List.cons_ne_nil _ _
    · split
      · exact List.cons_ne_nil _ _
      · exact List.cons_ne_nil _ _

theorem splitAtPair_ne_nil (first second : Char) (text : List Char) : splitAtPair first second text ≠ [] := by
  match text with
  | [] => exact List.cons_ne_nil _ _
  | [c] => exact List.cons_ne_nil _ _
  | c :: d :: rest =>
    unfold splitAtPair
    split
    · exact List.cons_ne_nil _ _
    · split
      · exact List.cons_ne_nil _ _
      · exact List.cons_ne_nil _ _

end Text

namespace Geometry

theorem readPath_ne_nil {text : List Char} {path : List Coordinate} (found : readPath text = .ok path) : path ≠ [] :=
  mapM_ne_nil found (Text.splitAll_ne_nil ',' text)

/-- Nothing empty is read. -/
theorem readable_of_read {text : List Char} {geometry : Geometry} (found : read text = .ok geometry) :
    geometry.Readable := by
  unfold read at found
  split at found
  · cases found
  · next kind body _ =>
    split at found
    · obtain ⟨position, -, rfl⟩ := exists_of_map_eq_ok found
      trivial
    · obtain ⟨path, path_eq, rfl⟩ := exists_of_map_eq_ok found
      exact readPath_ne_nil path_eq
    · obtain ⟨rings, rings_eq, rfl⟩ := exists_of_map_eq_ok found
      refine ⟨mapM_ne_nil rings_eq (Text.splitAtPair_ne_nil _ _ body), fun ring present => ?_⟩
      obtain ⟨part, -, ring_eq⟩ := mem_of_mapM_eq_ok rings_eq present
      exact readPath_ne_nil ring_eq
    · cases found

end Geometry

/-! ## Cells -/

namespace Value

variable {type : FieldType} {cell : String} {value : Value}

/-- A value that was read can be read again. -/
theorem fits_of_ofCell (found : ofCell type cell = .ok value) : value.Fits type := by
  unfold ofCell at found
  split at found
  · cases found
    exact ⟨.inl rfl, trivial⟩
  · next nonempty =>
    cases type with
    | boolean =>
      unfold ofText at found
      dsimp only at found
      split at found
      · cases found
        exact ⟨.inr rfl, trivial⟩
      · cases found
        exact ⟨.inr rfl, trivial⟩
      · cases found
    | integer | timestamp =>
      obtain ⟨n, -, rfl⟩ := exists_of_map_eq_ok (eq_ok_of_mapError_eq_ok found)
      exact ⟨.inr rfl, trivial⟩
    | float =>
      obtain ⟨x, -, rfl⟩ := exists_of_map_eq_ok (eq_ok_of_mapError_eq_ok found)
      exact ⟨.inr rfl, trivial⟩
    | string =>
      cases found
      exact ⟨.inr rfl, nonempty⟩
    | geometry =>
      obtain ⟨geometry, shape, rfl⟩ := exists_of_map_eq_ok (eq_ok_of_mapError_eq_ok found)
      exact ⟨.inr rfl, Geometry.readable_of_read shape⟩

/-- A scalar that was read is read again as it was, but for the NaN with a sign. -/
theorem settled_of_ofCell (found : ofCell type cell = .ok value) (scalar : type ≠ .geometry)
    (unsigned : value ≠ .float (.nan true)) : value.settled = value := by
  obtain ⟨rfl | typed, -⟩ := fits_of_ofCell found
  · rfl
  cases value with
  | null => rfl
  | boolean value => rfl
  | integer value => rfl
  | string value => rfl
  | timestamp value => rfl
  | geometry value =>
    cases typed
    exact absurd rfl scalar
  | float x =>
    cases typed
    unfold ofCell at found
    split at found
    · cases found
    · obtain ⟨x', read, same⟩ := exists_of_map_eq_ok (eq_ok_of_mapError_eq_ok found)
      cases same
      have settled := Binary64.settled_of_read read fun signed =>
        unsigned (congrArg Value.float signed)
      exact congrArg Value.float settled

end Value

/-! ## Features -/

/-- A feature that can come from a table: it has an identifier, and a value from some cell for every field. -/
structure Feature.Parsed (fields : List Field) (feature : Feature) : Prop where
  named : feature.id ≠ ""
  cells : ∀ index field, fields[index]? = some field → ∃ cell, Value.ofCell field.type cell = .ok (feature.value index)

theorem Feature.Parsed.fits {fields : List Field} {feature : Feature} (parsed : feature.Parsed fields) :
    feature.Fits fields := by
  refine ⟨parsed.named, fun index field found => ?_⟩
  obtain ⟨cell, read⟩ := parsed.cells index field found
  exact Value.fits_of_ofCell read

/-- A value that is missing is that of an empty cell. -/
theorem exists_cell_of_readValues {fields : List Field} {cells : List String} {values : List Value}
    (read : readValues fields cells = .ok values) {index : Nat} {field : Field} (found : fields[index]? = some field) :
    ∃ cell, Value.ofCell field.type cell = .ok (values.getD index .null) := by
  induction fields generalizing cells values index with
  | nil => cases found
  | cons first fields ih =>
    cases cells with
    | nil =>
      cases read
      exact ⟨"", rfl⟩
    | cons cell cells =>
      unfold readValues at read
      split at read
      · cases read
      · next value first_read =>
        obtain ⟨values', rest, rfl⟩ := exists_of_map_eq_ok read
        cases index with
        | zero =>
          cases found
          exact ⟨cell, first_read⟩
        | succ index => exact ih rest found

theorem Feature.parsed_of_ofCells {schema : Schema} {cells : List String} {feature : Feature}
    (read : ofCells schema cells = .ok feature) : feature.Parsed schema.fields := by
  cases cells with
  | nil => cases read
  | cons id cells =>
    simp only [ofCells] at read
    split at read
    · cases read
    · next named =>
      obtain ⟨values, values_eq, rfl⟩ := exists_of_map_eq_ok read
      exact ⟨named, fun index field found => exists_cell_of_readValues values_eq found⟩

namespace TableReader

theorem parsed_of_next {reader reader' : TableReader} {feature : Feature}
    (given : reader.next = (.ok (some feature), reader')) :
    feature.Parsed reader.schema.fields ∧ reader'.schema = reader.schema := by
  unfold next at given
  split at given
  · cases given
  · cases given
  · split at given
    · cases given
    · next read =>
      cases given
      exact ⟨Feature.parsed_of_ofCells read, rfl⟩

/-- The features of a table can all be written and read again. -/
theorem parsed_of_readAll {features : List Feature} {reader : TableReader} (all : reader.readAll.1 = .ok features) :
    ∀ feature ∈ features, feature.Parsed reader.schema.fields := by
  induction features generalizing reader with
  | nil => exact List.forall_mem_nil _
  | cons feature features ih =>
    obtain ⟨reader', given, others⟩ := next_of_readAll_cons all
    obtain ⟨parsed, same⟩ := parsed_of_next given
    rw [← same]
    exact List.forall_mem_cons.mpr ⟨same ▸ parsed, ih others⟩

end TableReader

end SpillSort
