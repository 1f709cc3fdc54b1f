import SpillSort.Proofs.ParsedValues

/-! # The records of a table

An input falls into records whether or not they are features. A table reader answers for one of them with every call,
in their order, and what it says of one does not depend on what it said of others.
-/

namespace SpillSort

/-! ## Records of an input -/

/-- A record of an input: the place where the record before it ended, the place of its own first byte behind the line
breaks between them, and its cells, or the failure that kept them from being read. -/
structure Row where
  ended : Spot
  start : Spot
  cells : Except FileError (List Bytes)
deriving DecidableEq, Repr

namespace Table

/-- The records of an input from a place on, up to the first failure. -/
def rowsFrom (spot : Spot) (input : List Signal) : List Row :=
  match _left : skipBreaks spot input with
  | (_, []) => []
  | (start, signal :: rest) =>
    let cut := cutRecord start (signal :: rest)
    ⟨spot, start, cut.cells⟩ ::
      match cut.cells with
      | .error _ => []
      | .ok _ => rowsFrom cut.spot cut.rest
termination_by input.length
decreasing_by
  have breaks := length_skipBreaks spot input
  rw [_left] at breaks
  exact Nat.lt_of_lt_of_le (Nat.lt_succ_of_le (length_cutRecord start signal rest)) breaks

variable {spot start : Spot} {input rest : List Signal} {signal : Signal}

theorem rowsFrom_of_blank (left : skipBreaks spot input = (start, [])) : rowsFrom spot input = [] := by
  rw [rowsFrom]
  split
  · rfl
  · next left' => cases left.symm.trans left'

theorem rowsFrom_of_cells {cells : List Bytes} (left : skipBreaks spot input = (start, signal :: rest))
    (cut : (cutRecord start (signal :: rest)).cells = .ok cells) :
    rowsFrom spot input = ⟨spot, start, .ok cells⟩ ::
      rowsFrom (cutRecord start (signal :: rest)).spot (cutRecord start (signal :: rest)).rest := by
  rw [rowsFrom]
  split
  · next left' => cases left.symm.trans left'
  · next left' =>
    cases left.symm.trans left'
    simp only [cut]

theorem rowsFrom_of_failure {error : FileError} (left : skipBreaks spot input = (start, signal :: rest))
    (cut : (cutRecord start (signal :: rest)).cells = .error error) :
    rowsFrom spot input = [⟨spot, start, .error error⟩] := by
  rw [rowsFrom]
  split
  · next left' => cases left.symm.trans left'
  · next left' =>
    cases left.symm.trans left'
    simp only [cut]

end Table

namespace RecordReader

/-- The records that are left in the input. -/
def rows (reader : RecordReader) : List Row := Table.rowsFrom reader.spot reader.input

theorem rows_ended (reader : RecordReader) : reader.ended.rows = [] := Table.rowsFrom_of_blank rfl

/-- What a record reader does next: it is at its end, or the next record cannot be read to its end, or it is checked and
leaves the others. -/
inductive Advances (reader : RecordReader) : Except TableError (Option TableRecord) × RecordReader → Prop
  | ended (none_left : reader.rows = []) : Advances reader (.ok none, reader.ended)
  | failed {row : Row} {error : FileError} (left : reader.rows = [row]) (failure : row.cells = .error error) :
    Advances reader (.error (.io error), reader.ended)
  | checked {row : Row} {cells : List Bytes} {later : RecordReader} (left : reader.rows = row :: later.rows)
    (read : row.cells = .ok cells) (line_eq : row.ended.line = reader.start.line)
    (width_eq : later.width = some (reader.width.getD cells.length)) :
    Advances reader ((check reader.start (reader.width.getD cells.length) cells).map some, later)

theorem next_advances (reader : RecordReader) : reader.Advances reader.next := by
  unfold next
  split
  · next left => exact .ended (Table.rowsFrom_of_blank left)
  · next left =>
    dsimp only
    split
    · next failure => exact .failed (Table.rowsFrom_of_failure left failure) rfl
    · next cut => exact .checked (Table.rowsFrom_of_cells left cut) rfl rfl rfl

/-- A record passes if it has the right number of cells and all of them are text. -/
theorem check_eq_ok_iff {start : RecordStart} {width : Nat} {cells : List Bytes} {record : TableRecord} :
    check start width cells = .ok record ↔
      cells.length = width ∧ record.start = start ∧ cells = record.cells.map utf8Bytes := by
  unfold check
  constructor
  · intro passed
    split at passed
    · next even =>
      split at passed
      · next texts decoded =>
        cases passed
        exact ⟨even, rfl, (decodeCells_eq_ok_iff 0).mp decoded⟩
      · cases passed
    · cases passed
  · rintro ⟨even, rfl, texts_eq⟩
    rw [if_pos even, (decodeCells_eq_ok_iff 0).mpr texts_eq]

theorem check_eq_error {start : RecordStart} {width : Nat} {cells : List Bytes} {error : TableError}
    (refused : check start width cells = .error error) : ∃ fault, error = .malformed start.line fault := by
  unfold check at refused
  split at refused
  · split at refused
    · cases refused
    · cases refused
      exact ⟨_, rfl⟩
  · cases refused
    exact ⟨_, rfl⟩

end RecordReader

/-! ## Features in records -/

/-- Values stand in cells, one in each and one for each field: every cell is text, and its value is the one that the
field's type gives to the text. -/
inductive ValuesIn : List Field → List Bytes → List Value → Prop
  | nil : ValuesIn [] [] []
  | cons {field : Field} {fields : List Field} {text : String} {cells : List Bytes} {value : Value} {values : List Value}
    (read : Value.ofCell field.type text = .ok value) (others : ValuesIn fields cells values) :
    ValuesIn (field :: fields) (utf8Bytes text :: cells) (value :: values)

/-- The feature that stands in the cells of a record. -/
structure Feature.StandsIn (schema : Schema) (cells : List Bytes) (feature : Feature) : Prop where
  named : feature.id ≠ ""
  cells_eq : ∃ others, cells = utf8Bytes feature.id :: others ∧ ValuesIn schema.fields others feature.values

/-- What the cells of a record must be for a feature to stand in them: as many as there are columns, all of them text,
the first one not empty, and each other one empty or the text of a value of its column's type. -/
structure Schema.Admits (schema : Schema) (cells : List Bytes) : Prop where
  width : cells.length = schema.fields.length + 1
  decoded : ∃ texts : List String, cells = texts.map utf8Bytes
  named : cells.head? ≠ some []
  parsed : ∀ (index : Nat) (field : Field) (text : String), schema.fields[index]? = some field →
    cells[index + 1]? = some (utf8Bytes text) → text = "" ∨ ∃ value, Value.ofText field.type text = .ok value

theorem utf8Bytes_injective {first second : String} (same : utf8Bytes first = utf8Bytes second) : first = second := by
  have decoded := Utf8.decode_utf8Bytes first
  rw [same, Utf8.decode_utf8Bytes] at decoded
  exact (Except.ok.inj decoded).symm

theorem utf8Bytes_eq_nil_iff {text : String} : utf8Bytes text = [] ↔ text = "" :=
  ⟨fun empty => utf8Bytes_injective (empty.trans rfl), fun empty => empty ▸ rfl⟩

namespace ValuesIn

variable {fields : List Field} {cells : List Bytes} {values : List Value}

theorem length_cells (within : ValuesIn fields cells values) : cells.length = fields.length := by
  induction within with
  | nil => rfl
  | cons _ _ ih => rw [List.length_cons, ih, List.length_cons]

theorem decoded (within : ValuesIn fields cells values) : ∃ texts : List String, cells = texts.map utf8Bytes := by
  induction within with
  | nil => exact ⟨[], rfl⟩
  | @cons _ _ text _ _ _ _ _ ih =>
    obtain ⟨texts, rfl⟩ := ih
    exact ⟨text :: texts, rfl⟩

/-- Every value is null or of its field's type, and none is empty. -/
theorem fits (within : ValuesIn fields cells values) :
    List.Forall₂ (fun field value => value.Fits field.type) fields values := by
  induction within with
  | nil => exact .nil
  | cons read _ ih => exact .cons (Value.fits_of_ofCell read) ih

theorem parsed (within : ValuesIn fields cells values) {index : Nat} {field : Field} {text : String}
    (found : fields[index]? = some field) (cell_eq : cells[index]? = some (utf8Bytes text)) :
    ∃ value, Value.ofCell field.type text = .ok value := by
  induction within generalizing index with
  | nil => cases found
  | @cons _ _ text' _ value _ read _ ih =>
    cases index with
    | zero =>
      cases found
      rw [utf8Bytes_injective (Option.some.inj cell_eq)] at read
      exact ⟨value, read⟩
    | succ index => exact ih found cell_eq

/-- There are values if there is one in every cell. -/
theorem exists_of_parsed {texts : List String} (even : texts.length = fields.length)
    (parsed : ∀ (index : Nat) (field : Field) (text : String), fields[index]? = some field → texts[index]? = some text →
      ∃ value, Value.ofCell field.type text = .ok value) : ∃ values, ValuesIn fields (texts.map utf8Bytes) values := by
  induction fields generalizing texts with
  | nil =>
    rw [List.eq_nil_of_length_eq_zero even]
    exact ⟨[], .nil⟩
  | cons field fields ih =>
    obtain ⟨text, texts, rfl⟩ := List.exists_cons_of_length_eq_add_one even
    obtain ⟨value, read⟩ := parsed 0 field text rfl rfl
    obtain ⟨values, within⟩ := ih (Nat.succ.inj even) fun index field' text' => parsed (index + 1) field' text'
    exact ⟨value :: values, .cons read within⟩

theorem of_readValues {texts : List String} (even : texts.length = fields.length)
    (read : readValues fields texts = .ok values) : ValuesIn fields (texts.map utf8Bytes) values := by
  induction fields generalizing texts values with
  | nil =>
    rw [List.eq_nil_of_length_eq_zero even] at read ⊢
    cases read
    exact .nil
  | cons field fields ih =>
    obtain ⟨text, texts, rfl⟩ := List.exists_cons_of_length_eq_add_one even
    unfold readValues at read
    split at read
    · cases read
    · next value first_read =>
      obtain ⟨values', later, rfl⟩ := exists_of_map_eq_ok read
      exact .cons first_read (ih (Nat.succ.inj even) later)

theorem readValues_eq {texts : List String} (within : ValuesIn fields (texts.map utf8Bytes) values) :
    readValues fields texts = .ok values := by
  generalize cells_eq : texts.map utf8Bytes = cells at within
  induction within generalizing texts with
  | nil =>
    rw [List.map_eq_nil_iff.mp cells_eq]
    rfl
  | cons read _ ih =>
    obtain ⟨text', texts', rfl, first_eq, later_eq⟩ := List.map_eq_cons_iff.mp cells_eq
    rw [readValues, utf8Bytes_injective first_eq, read]
    dsimp only
    rw [ih later_eq]
    rfl

end ValuesIn

namespace Feature

variable {schema : Schema}

/-- A feature is read from the texts of a record exactly if it stands in the record. -/
theorem ofCells_eq_ok_iff {texts : List String} (even : texts.length = schema.fields.length + 1) {feature : Feature} :
    ofCells schema texts = .ok feature ↔ feature.StandsIn schema (texts.map utf8Bytes) := by
  obtain ⟨id, others, rfl⟩ := List.exists_cons_of_length_eq_add_one even
  simp only [ofCells]
  constructor
  · intro read
    split at read
    · cases read
    · next named =>
      obtain ⟨values, values_eq, rfl⟩ := exists_of_map_eq_ok read
      exact ⟨named, _, rfl, .of_readValues (Nat.succ.inj even) values_eq⟩
  · rintro ⟨named, others', cells_eq, within⟩
    obtain ⟨first_eq, rfl⟩ := List.cons.inj cells_eq
    obtain rfl := utf8Bytes_injective first_eq
    rw [if_neg named, within.readValues_eq]
    rfl

end Feature

/-- A record is admitted exactly if some feature stands in it. -/
theorem Schema.admits_iff {schema : Schema} {cells : List Bytes} :
    schema.Admits cells ↔ ∃ feature : Feature, feature.StandsIn schema cells := by
  constructor
  · rintro ⟨width, ⟨texts, rfl⟩, named, parsed⟩
    rw [List.length_map] at width
    obtain ⟨id, others, rfl⟩ := List.exists_cons_of_length_eq_add_one width
    have parsed' : ∀ (index : Nat) (field : Field) (text : String), schema.fields[index]? = some field →
        others[index]? = some text → ∃ value, Value.ofCell field.type text = .ok value := by
      intro index field text found text_eq
      have cell_eq : ((id :: others).map utf8Bytes)[index + 1]? = some (utf8Bytes text) := by
        rw [List.getElem?_map, List.getElem?_cons_succ, text_eq, Option.map_some]
      by_cases empty : text = ""
      · exact ⟨.null, if_pos empty⟩
      · obtain ⟨value, read⟩ := (parsed index field text found cell_eq).resolve_left empty
        exact ⟨value, (Value.ofCell_of_ne empty).trans read⟩
    obtain ⟨values, within⟩ := ValuesIn.exists_of_parsed (Nat.succ.inj width) parsed'
    exact ⟨⟨id, values⟩, fun empty => named (congrArg some (utf8Bytes_eq_nil_iff.mpr empty)), _, rfl, within⟩
  · rintro ⟨feature, named, others, rfl, within⟩
    obtain ⟨texts, rfl⟩ := within.decoded
    refine ⟨congrArg Nat.succ within.length_cells, ⟨feature.id :: texts, rfl⟩, ?_, ?_⟩
    · exact fun empty => named (utf8Bytes_eq_nil_iff.mp (Option.some.inj empty))
    · intro index field text found cell_eq
      obtain ⟨value, read⟩ := within.parsed found cell_eq
      by_cases empty : text = ""
      · exact .inl empty
      · exact .inr ⟨value, (Value.ofCell_of_ne empty).symm.trans read⟩

/-- A record that is admitted passes. -/
theorem Schema.Admits.check {schema : Schema} {cells : List Bytes} (admitted : schema.Admits cells) (start : RecordStart) :
    ∃ texts, RecordReader.check start (schema.fields.length + 1) cells = .ok ⟨start, texts⟩ := by
  obtain ⟨texts, texts_eq⟩ := admitted.decoded
  exact ⟨texts, RecordReader.check_eq_ok_iff.mpr ⟨admitted.width, rfl, texts_eq⟩⟩

end SpillSort
