import SpillSort.Proofs.TableRows

/-! # What a table reader answers

The n-th call of a table reader answers for the n-th record behind the column titles, whatever the calls before it
answered, and when there are no records left it tells the end for ever.
-/

namespace SpillSort

namespace TableReader

/-- The reader after some calls. -/
def after : TableReader → Nat → TableReader
  | reader, 0 => reader
  | reader, calls + 1 => reader.next.2.after calls

/-- What a call says that comes upon some record, or upon none: the feature that stands in it, or what is wrong with it,
with the line on which the record before it ended, or why it cannot be read. -/
inductive Answers (schema : Schema) : Option Row → Except TableError (Option Feature) → Prop
  | ended : Answers schema none (.ok none)
  | feature {row : Row} {cells : List Bytes} {feature : Feature} (read : row.cells = .ok cells)
    (admitted : schema.Admits cells) (stands : feature.StandsIn schema cells) :
    Answers schema (some row) (.ok (some feature))
  | malformed {row : Row} {cells : List Bytes} (fault : TableFault) (read : row.cells = .ok cells)
    (refused : ¬ schema.Admits cells) : Answers schema (some row) (.error (.malformed row.ended.line fault))
  | failed {row : Row} {error : FileError} (failure : row.cells = .error error) :
    Answers schema (some row) (.error (.io error))

/-- A reader that has some records to come. -/
structure Awaits (schema : Schema) (rows : List Row) (reader : TableReader) : Prop where
  schema_eq : reader.schema = schema
  width_eq : reader.records.width = some (schema.fields.length + 1)
  rows_eq : reader.records.rows = rows

variable {schema : Schema} {rows : List Row} {reader : TableReader}

/-- One call answers for the first of them and leaves the others. -/
theorem Awaits.next (awaits : reader.Awaits schema rows) :
    Answers schema rows.head? reader.next.1 ∧ reader.next.2.Awaits schema rows.tail := by
  obtain ⟨rfl, width_eq, rfl⟩ := awaits
  have advances := reader.records.next_advances
  unfold TableReader.next
  generalize reader.records.next = result at advances
  cases advances with
  | ended none_left =>
    rw [none_left]
    exact ⟨.ended, rfl, width_eq, RecordReader.rows_ended _⟩
  | failed left failure =>
    rw [left]
    exact ⟨.failed failure, rfl, width_eq, RecordReader.rows_ended _⟩
  | checked left read line_eq width_eq' =>
    rename_i row cells later
    rw [width_eq, Option.getD_some] at width_eq' ⊢
    rw [left, List.head?_cons, List.tail_cons]
    cases checked : RecordReader.check reader.records.start (reader.schema.fields.length + 1) cells with
    | error error =>
      obtain ⟨fault, rfl⟩ := RecordReader.check_eq_error checked
      have refused : ¬ reader.schema.Admits cells := by
        intro admitted
        obtain ⟨texts, passes⟩ := admitted.check reader.records.start
        cases checked.symm.trans passes
      exact ⟨line_eq ▸ .malformed fault read refused, rfl, width_eq', rfl⟩
    | ok record =>
      obtain ⟨even, start_eq, texts_eq⟩ := RecordReader.check_eq_ok_iff.mp checked
      have even' : record.cells.length = reader.schema.fields.length + 1 := by
        rw [← even, texts_eq, List.length_map]
      dsimp only [Except.map]
      cases made : Feature.ofCells reader.schema record.cells with
      | error fault =>
        have refused : ¬ reader.schema.Admits cells := by
          intro admitted
          obtain ⟨feature, stands⟩ := Schema.admits_iff.mp admitted
          rw [texts_eq] at stands
          cases made.symm.trans ((Feature.ofCells_eq_ok_iff even').mpr stands)
        rw [start_eq]
        exact ⟨line_eq ▸ .malformed fault read refused, rfl, width_eq', rfl⟩
      | ok feature =>
        have stands := (Feature.ofCells_eq_ok_iff even').mp made
        rw [← texts_eq] at stands
        exact ⟨.feature read (Schema.admits_iff.mpr ⟨feature, stands⟩) stands, rfl, width_eq', rfl⟩

/-- The calls answer for the records one by one, and then tell the end. -/
theorem Awaits.answers (awaits : reader.Awaits schema rows) (calls : Nat) :
    Answers schema rows[calls]? (reader.after calls).next.1 := by
  induction calls generalizing reader rows with
  | zero =>
    rw [← List.head?_eq_getElem?]
    exact awaits.next.1
  | succ calls ih =>
    rw [← List.getElem?_tail]
    exact ih awaits.next.2

/-! ## Column titles -/

theorem width_ofPieces (pieces : List (Except FileError Bytes)) : (RecordReader.ofPieces pieces).width = none := by
  unfold RecordReader.ofPieces
  split
  · split
    · rfl
    · rfl
    · rfl
  · rfl

theorem length_of_ofTitles {name : String} {titles : List String} (declared : Schema.ofTitles name titles = .ok schema) :
    titles.length = schema.fields.length + 1 := by
  cases titles with
  | nil => cases declared
  | cons first titles =>
    simp only [Schema.ofTitles] at declared
    split at declared
    · obtain ⟨fields, fields_eq, rfl⟩ := exists_of_map_eq_ok declared
      rw [List.length_cons, length_of_mapM_eq_ok fields_eq]
    · cases declared

/-- The titles stand in the first record, and the others are those of the table. -/
theorem exists_header_of_readTitles {name : String} {records : RecordReader} (fresh : records.width = none)
    (opened : readTitles name records = .ok reader) :
    ∃ header rows titles, records.rows = header :: rows ∧ header.cells = .ok (titles.map utf8Bytes) ∧
      Schema.ofTitles name titles = .ok reader.schema ∧ reader.Awaits reader.schema rows := by
  have advances := records.next_advances
  unfold readTitles at opened
  generalize records.next = result at advances opened
  cases advances with
  | ended => cases opened
  | failed => cases opened
  | checked left read line_eq width_eq =>
    rename_i row cells later
    rw [fresh, Option.getD_none] at width_eq opened
    cases checked : RecordReader.check records.start cells.length cells with
    | error error =>
      rw [checked] at opened
      cases opened
    | ok record =>
      obtain ⟨-, -, texts_eq⟩ := RecordReader.check_eq_ok_iff.mp checked
      rw [checked] at opened
      dsimp only [Except.map, Option.map, Option.getD] at opened
      cases declared : Schema.ofTitles name record.cells with
      | error fault =>
        rw [declared] at opened
        cases opened
      | ok schema =>
        rw [declared] at opened
        cases opened
        have long := length_of_ofTitles declared
        rw [← List.length_map (f := utf8Bytes), ← texts_eq] at long
        exact ⟨row, later.rows, record.cells, left, read.trans (congrArg _ texts_eq), declared, rfl, long ▸ width_eq, rfl⟩

theorem readTitles_of_new {name : String} {records : RecordReader} {host later : Host}
    (opened : (new name records).run host = (.ok reader, later)) : readTitles name records = .ok reader := by
  unfold new at opened
  cases titles : readTitles name records with
  | error error =>
    rw [titles] at opened
    cases opened
  | ok reader' =>
    rw [titles] at opened
    exact congrArg Prod.fst opened

/-! ## Tables -/

/-- Of a table whose titles are read, every call answers for the next record behind them, as many as there are, and then
for ever tells the end. The answer is the feature that stands in the record if the record has as many cells as there are
titles, all of them text, the first one not empty and the others empty or of their types, and else that it is malformed;
it never depends on other records. The features that are given have a value for every field, null or of the field's type
and not empty, and so is every value that is made on the way. -/
theorem next_answers {name : String} {pieces : List (Except FileError Bytes)} {host later : Host}
    (opened : (new name (.ofPieces pieces)).run host = (.ok reader, later)) :
    ∃ header rows titles, (RecordReader.ofPieces pieces).rows = header :: rows ∧
      header.cells = .ok (titles.map utf8Bytes) ∧ Schema.ofTitles name titles = .ok reader.schema ∧
      titles.length = reader.schema.fields.length + 1 ∧
      (∀ calls, Answers reader.schema rows[calls]? (reader.after calls).next.1) ∧
      (∀ calls feature, (reader.after calls).next.1 = .ok (some feature) → feature.id ≠ "" ∧
        List.Forall₂ (fun field value => value.Fits field.type) reader.schema.fields feature.values) ∧
      ∀ type cell value, Value.ofCell type cell = .ok value → value = .null ∨ value.fieldType? = some type := by
  obtain ⟨header, rows, titles, rows_eq, titles_eq, declared, awaits⟩ :=
    exists_header_of_readTitles (width_ofPieces pieces) (readTitles_of_new opened)
  refine ⟨header, rows, titles, rows_eq, titles_eq, declared, length_of_ofTitles declared, awaits.answers, ?_, ?_⟩
  · intro calls feature given
    have answers := awaits.answers calls
    rw [given] at answers
    generalize rows[calls]? = row at answers
    cases answers with
    | feature _ _ stands =>
      obtain ⟨named, _, -, within⟩ := stands
      exact ⟨named, within.fits⟩
  · intro type cell value read
    exact (Value.fits_of_ofCell read).typed

/-- A table with lines of both kinds, empty ones and a cell over two of them, and with features and records of every other
kind: too short, without an identifier, of another type and not UTF-8. -/
def mixedTable : Bytes :=
  utf8Bytes "id\tv:integer\r\na\t1\r\nb\n\n\t2\n\"c\nd\"\tx\n" ++ 0xFF :: utf8Bytes "\t3\n\ne\t"

/-- The answers to seven calls. -/
def mixedAnswers : List (Except TableError (Option Feature)) :=
  [.ok (some ⟨"a", [.integer 1]⟩), .error (.malformed 2 (.width (some ⟨18, 2, 2⟩) 1 2)),
    .error (.malformed 4 .noIdentifier), .error (.malformed 6 (.attribute "v" (.integer "x" .badDigit))),
    .error (.malformed 8 (.encoding ⟨33, 8, 5⟩ 0 0)), .ok (some ⟨"e", [.null]⟩), .ok none]

/-- Between two features there are four records that are none, and all six have their answers. -/
theorem next_answers_mixed :
    ∃ reader later, (new "t" (.ofPieces [.ok mixedTable])).run default = (.ok reader, later) ∧
      (∃ header rows, (RecordReader.ofPieces [.ok mixedTable]).rows = header :: rows ∧ rows.length = 6 ∧
        ∀ calls, Answers reader.schema rows[calls]? (reader.after calls).next.1) ∧
      (List.range 7).map (fun calls => (reader.after calls).next.1) = mixedAnswers := by
  have count : (RecordReader.ofPieces [.ok mixedTable]).rows.length = 7 := by decide +kernel
  have answers : ((new "t" (.ofPieces [.ok mixedTable])).run default).1.toOption.map
      (fun reader => (List.range 7).map fun calls => (reader.after calls).next.1) = some mixedAnswers := by decide +kernel
  obtain ⟨reader, later, opened, answers_eq⟩ := exists_of_map_eq_some answers
  obtain ⟨header, rows, _, rows_eq, _, _, _, each, -⟩ := next_answers opened
  rw [rows_eq] at count
  exact ⟨reader, later, opened, ⟨header, rows, rows_eq, Nat.succ.inj count, each⟩, answers_eq⟩

end TableReader

end SpillSort
