import SpillSort.Proofs.Ensures
import SpillSort.Proofs.GeometryText
import SpillSort.Proofs.RecordWriting
import SpillSort.Table.Whole

/-! # Tables read back from what was written

A table gives back the features it was written from, each with a value for every field. What has no text of its own
is left out: texts and geometries that are empty, and the bits of a NaN.
-/

namespace SpillSort

/-! ## Column titles -/

theorem FieldType.ofName?_name (type : FieldType) : ofName? type.name = some type := by
  cases type <;> rfl

theorem FieldType.notMem_name (type : FieldType) : ':' ∉ type.name.toList := by
  cases type <;> simp [name]

/-- The type stands behind the last colon, whatever the name is. -/
theorem Field.ofTitle_title (field : Field) : Field.ofTitle field.title = .ok field := by
  have chars : field.title.toList = field.name.toList ++ ':' :: field.type.name.toList := by
    simp [title]
  rw [ofTitle, chars, Text.splitLast?_append _ field.type.notMem_name]
  dsimp only
  rw [String.ofList_toList, FieldType.ofName?_name, String.ofList_toList]

theorem Schema.ofTitles_titles (name : String) (schema : Schema) :
    Schema.ofTitles name schema.titles = .ok ⟨name, schema.fields⟩ := by
  have fields_eq : (schema.fields.map Field.title).mapM Field.ofTitle = .ok (schema.fields.map id) :=
    mapM_map_eq_ok fun field _ => field.ofTitle_title
  rw [titles, ofTitles, if_pos rfl, fields_eq, List.map_id]
  rfl

/-! ## Values -/

namespace Value

/-- What is read from the cell of a value. -/
def settled : Value → Value
  | .float value => .float value.settled
  | .geometry value => .geometry value.settled
  | value => value

/-- A value that is not empty. -/
def Readable : Value → Prop
  | .string value => value ≠ ""
  | .geometry value => value.Readable
  | _ => True

/-- A value that can be read from its cell in a column of some type. -/
structure Fits (type : FieldType) (value : Value) : Prop where
  typed : value = .null ∨ value.fieldType? = some type
  readable : value.Readable

theorem ofCell_of_ne {type : FieldType} {cell : String} (nonempty : cell ≠ "") : ofCell type cell = ofText type cell :=
  if_neg nonempty

theorem ofList_ne_empty {text : List Char} (nonempty : text ≠ []) : String.ofList text ≠ "" := by
  intro empty
  have chars := congrArg String.toList empty
  rw [String.toList_ofList] at chars
  exact nonempty chars

/-- A value is read from its cell. -/
theorem ofCell_toCell {type : FieldType} {value : Value} (fits : value.Fits type) :
    ofCell type value.toCell = .ok value.settled := by
  obtain ⟨rfl | typed, readable⟩ := fits
  · rfl
  cases value with
  | null => cases typed
  | boolean value =>
    cases typed
    cases value <;> rfl
  | integer value =>
    cases typed
    rw [toCell, ofCell_of_ne (Text.writeInt64_ne_empty value), ofText, Text.readInt64_writeInt64]
    rfl
  | float value =>
    cases typed
    rw [toCell, Binary64.toText, ofCell_of_ne (ofList_ne_empty value.write_ne_nil), ofText, String.toList_ofList,
      Binary64.read_write]
    rfl
  | string value =>
    cases typed
    exact ofCell_of_ne readable
  | timestamp value =>
    cases typed
    rw [toCell, ofCell_of_ne (Text.writeInt64_ne_empty value), ofText, Text.readInt64_writeInt64]
    rfl
  | geometry value =>
    cases typed
    rw [toCell, ofCell_of_ne (ofList_ne_empty value.write_ne_nil), ofText, String.toList_ofList,
      Geometry.read_write readable]
    rfl

end Value

/-! ## Features -/

namespace Feature

/-- A feature that can be read from its record: it has an identifier, and what it has at the places of the fields fits
them. -/
structure Fits (fields : List Field) (feature : Feature) : Prop where
  named : feature.id ≠ ""
  fits : ∀ index field, fields[index]? = some field → (feature.value index).Fits field.type

/-- What is read from the record of a feature: a value for every field, and no others. -/
def settled (fields : List Field) (feature : Feature) : Feature :=
  ⟨feature.id, (List.range fields.length).map fun index => (feature.value index).settled⟩

theorem readValues_toCell {fields : List Field} (value : Nat → Value)
    (fits : ∀ index field, fields[index]? = some field → (value index).Fits field.type) :
    readValues fields ((List.range fields.length).map fun index => (value index).toCell) =
      .ok ((List.range fields.length).map fun index => (value index).settled) := by
  induction fields generalizing value with
  | nil => rfl
  | cons field fields ih =>
    have first := Value.ofCell_toCell (fits 0 field rfl)
    have others := ih (fun index => value (index + 1)) fun index field' found => fits (index + 1) field' found
    -- The other fields are those of a feature whose values begin one place later.
    rw [List.length_cons, List.range_succ_eq_map, List.map_cons, List.map_cons, List.map_map, List.map_map, readValues,
      first]
    exact congrArg (Except.map _) others

/-- A feature is read from its cells. -/
theorem ofCells_cells {schema : Schema} {feature : Feature} (fits : feature.Fits schema.fields) :
    ofCells schema (feature.cells schema.fields.length) = .ok (feature.settled schema.fields) := by
  rw [cells, ofCells, if_neg fits.named, readValues_toCell _ fits.fits]
  rfl

theorem length_cells (feature : Feature) (attributes : Nat) : (feature.cells attributes).length = attributes + 1 := by
  simp [cells]

end Feature

/-- Features are read from the rows of their cells. -/
theorem mapM_ofCells_cells {schema : Schema} {features : List Feature}
    (fits : ∀ feature ∈ features, feature.Fits schema.fields) :
    (features.map (·.cells schema.fields.length)).mapM (Feature.ofCells schema) =
      .ok (features.map (·.settled schema.fields)) :=
  mapM_map_eq_ok fun feature present => Feature.ofCells_cells (fits feature present)

theorem forall_length_cells (attributes : Nat) (features : List Feature) :
    ∀ cells ∈ features.map (·.cells attributes), cells.length = attributes + 1 := by
  intro cells present
  obtain ⟨feature, -, rfl⟩ := List.mem_map.mp present
  exact feature.length_cells attributes

/-! ## Writing -/

/-- The text of a table. -/
def tableText (schema : Schema) (features : List Feature) : Bytes :=
  Table.recordText (schema.titles.map utf8Bytes) ++
    features.flatMap fun feature => Table.recordText ((feature.cells schema.fields.length).map utf8Bytes)

/-- The text of a table with some rows of cells. -/
def cellsText (schema : Schema) (rows : List (List String)) : Bytes :=
  Table.recordText (schema.titles.map utf8Bytes) ++ rows.flatMap fun cells => Table.recordText (cells.map utf8Bytes)

theorem tableText_eq_cellsText (schema : Schema) (features : List Feature) :
    tableText schema features = cellsText schema (features.map (·.cells schema.fields.length)) := by
  rw [tableText, cellsText, List.flatMap_map]

namespace TableWriter

variable {ω : Type} {writer : TableWriter ω} {front : Bytes} {width : Option Nat}

theorem step_of_succeeds (writer : TableWriter ω) {action : RecordWriterM ω Unit} {post : Unit → RecordWriter ω → Prop}
    (succeeds : RecordWriter.Succeeds action writer.records post) :
    ∃ records, writer.step action = (.ok (), { writer with records }) ∧ post () records := by
  obtain ⟨⟨⟩, records, ran, holds⟩ := succeeds
  refine ⟨records, ?_, holds⟩
  rw [step, ran]

variable [Sink ω] [LosslessSink ω]

theorem putTexts_spec (within : writer.records.Within front width []) (texts : List String)
    (fits : ∀ count, width = some count → count = texts.length) :
    ∃ records, writer.putTexts texts = (.ok (), { writer with records }) ∧
      records.Within (front ++ Table.recordText (texts.map utf8Bytes)) (some texts.length) [] := by
  have fits' : ∀ count, width = some count → count = (texts.map utf8Bytes).length := by
    intro count known
    rw [List.length_map]
    exact fits count known
  have succeeds := step_of_succeeds writer (RecordWriter.putRecord_spec within fits')
  rwa [List.length_map] at succeeds

/-- The column titles are written to a sink that takes everything. -/
theorem new_spec {sink : ω} (takes : LosslessSink.Takes sink) (fresh : LosslessSink.taken sink = []) (schema : Schema) :
    ∃ records, new sink schema = (.ok (), ⟨records, schema.fields.length⟩) ∧
      records.Within (Table.recordText (schema.titles.map utf8Bytes)) (some (schema.fields.length + 1)) [] := by
  have titled : schema.titles.length = schema.fields.length + 1 := by simp [Schema.titles]
  have start : (⟨.new sink, schema.fields.length⟩ : TableWriter ω).records.Within [] none [] :=
    RecordWriter.within_new takes fresh
  obtain ⟨records, wrote, within⟩ := putTexts_spec start schema.titles nofun
  rw [titled] at within
  exact ⟨records, wrote, within⟩

/-- A feature is written behind what is written already. -/
theorem write_spec (writer : TableWriter ω) (within : writer.records.Within front (some (writer.attributes + 1)) [])
    (feature : Feature) :
    ∃ records, writer.write feature = (.ok (), { writer with records }) ∧
      records.Within (front ++ Table.recordText ((feature.cells writer.attributes).map utf8Bytes))
        (some (writer.attributes + 1)) [] := by
  have fits : ∀ count, some (writer.attributes + 1) = some count → count = (feature.cells writer.attributes).length := by
    rintro count ⟨⟩
    rw [feature.length_cells]
  obtain ⟨records, wrote, within'⟩ := putTexts_spec within _ fits
  rw [feature.length_cells] at within'
  exact ⟨records, wrote, within'⟩

theorem flush_spec (writer : TableWriter ω) (within : writer.records.Within front width []) :
    ∃ records, writer.flush = (.ok (), { writer with records }) ∧ LosslessSink.passed records.sink = front :=
  step_of_succeeds writer (RecordWriter.flush_spec within)

theorem writeAll_spec (writer : TableWriter ω) (within : writer.records.Within front (some (writer.attributes + 1)) [])
    (features : List Feature) :
    ∃ records, writer.writeAll features = (.ok (), { writer with records }) ∧
      records.Within (front ++ features.flatMap fun feature =>
        Table.recordText ((feature.cells writer.attributes).map utf8Bytes)) (some (writer.attributes + 1)) [] := by
  induction features generalizing writer front with
  | nil => exact ⟨writer.records, rfl, by rwa [List.flatMap_nil, List.append_nil]⟩
  | cons feature features ih =>
    obtain ⟨records, wrote, within'⟩ := writer.write_spec within feature
    obtain ⟨records', others, within''⟩ := ih { writer with records } within'
    refine ⟨records', ?_, ?_⟩
    · rw [writeAll, wrote]
      exact others
    · rw [List.flatMap_cons, ← List.append_assoc]
      exact within''

/-- A table can be written to memory, and is its text. -/
theorem writeTable_spec (schema : Schema) (features : List Feature) :
    ∃ writer, writeTable (MemorySink.empty none) schema features = (.ok (), writer) ∧
      writer.records.sink.content = tableText schema features := by
  obtain ⟨records, wrote, within⟩ := @new_spec MemorySink _ _ (.empty none) rfl rfl schema
  obtain ⟨records', others, within'⟩ := writeAll_spec ⟨records, schema.fields.length⟩ within features
  obtain ⟨records'', flushed, content_eq⟩ := flush_spec ⟨records', schema.fields.length⟩ within'
  refine ⟨⟨records'', schema.fields.length⟩, ?_, content_eq⟩
  rw [writeTable, wrote]
  dsimp only
  rw [others]
  exact flushed

end TableWriter

/-! ## Reading -/

namespace RecordReader

theorem signals_map_ok (pieces : List Bytes) : signals (pieces.map .ok) = pieces.flatten.map .ok := by
  induction pieces with
  | nil => rfl
  | cons bytes pieces ih =>
    rw [List.flatten_cons, List.map_append, ← ih]
    rfl

/-- What does not begin with a byte order mark is read as it is. -/
theorem ofPieces_of_front {pieces : List Bytes} {first : UInt8} {text : Bytes} (flatten_eq : pieces.flatten = first :: text)
    (differ : first ≠ 0xEF) : ofPieces (pieces.map .ok) = ⟨(first :: text).map .ok, ⟨0, 1⟩, 0, none⟩ := by
  have input_eq := signals_map_ok pieces
  rw [flatten_eq] at input_eq
  rw [← input_eq]
  cases pieces with
  | nil => rfl
  | cons bytes pieces =>
    have unmarked : afterMark? bytes = none := by
      cases bytes with
      | nil => rfl
      | cons byte bytes =>
        have same : byte = first := (List.cons.inj flatten_eq).1
        unfold afterMark?
        split
        · next marked => exact absurd (same.symm.trans (List.cons.inj marked).1) differ
        · rfl
    rw [List.map_cons, ofPieces, unmarked]

end RecordReader

namespace TableReader

theorem readAll_of_end {reader reader' : TableReader} (ended : reader.next = (.ok none, reader')) :
    reader.readAll = (.ok [], reader') := by
  rw [readAll]
  split
  · next read => cases ended.symm.trans read
  · next read =>
    cases ended.symm.trans read
    rfl
  · next read => cases ended.symm.trans read

theorem readAll_of_feature {reader reader' : TableReader} {feature : Feature}
    (given : reader.next = (.ok (some feature), reader')) :
    reader.readAll = (reader'.readAll.1.map (feature :: ·), reader'.readAll.2) := by
  rw [readAll]
  split
  · next read => cases given.symm.trans read
  · next read => cases given.symm.trans read
  · next read =>
    cases given.symm.trans read
    rfl

/-- The features of a table are read from the records of their cells. -/
theorem readAll_cells {rows : List (List String)} {features : List Feature} (reader : TableReader)
    (read : rows.mapM (Feature.ofCells reader.schema) = .ok features)
    (even : ∀ cells ∈ rows, cells.length = reader.schema.fields.length + 1)
    (input_eq : reader.records.input = (rows.flatMap fun cells => Table.recordText (cells.map utf8Bytes)).map .ok)
    (width_eq : reader.records.width = some (reader.schema.fields.length + 1)) : reader.readAll.1 = .ok features := by
  induction rows generalizing reader features with
  | nil =>
    cases read
    have ended : reader.next = (.ok none, { reader with records := reader.records.ended }) := by
      rw [next, RecordReader.next_nil input_eq]
    rw [readAll_of_end ended]
    rfl
  | cons cells rows ih =>
    obtain ⟨long, others_even⟩ := List.forall_mem_cons.mp even
    have nonempty : cells ≠ [] := List.ne_nil_of_length_eq_add_one long
    have width_eq' : ∀ width, reader.records.width = some width → width = cells.length := by
      intro width known
      rw [long]
      exact Option.some.inj (known.symm.trans width_eq)
    rw [List.flatMap_cons, List.map_append] at input_eq
    obtain ⟨start, records, record_read, rest, later_width⟩ := RecordReader.next_recordText nonempty input_eq width_eq'
    obtain ⟨feature, features, first, later, rfl⟩ := exists_of_mapM_cons_eq_ok read
    have given : reader.next = (.ok (some feature), { reader with records }) := by
      rw [next, record_read]
      dsimp only
      rw [first]
    have others := ih { reader with records } later others_even rest (long ▸ later_width)
    rw [readAll_of_feature given, others]
    rfl

/-- The column titles of a table are read from their record. -/
theorem readTitles_recordText (name : String) (schema : Schema) {records : RecordReader} {rest : List Signal}
    (input_eq : records.input = (Table.recordText (schema.titles.map utf8Bytes)).map .ok ++ rest)
    (width_eq : records.width = none) :
    ∃ records', readTitles name records = .ok ⟨⟨name, schema.fields⟩, records'⟩ ∧ records'.input = rest ∧
      records'.width = some (schema.fields.length + 1) := by
  have titled : schema.titles.length = schema.fields.length + 1 := by simp [Schema.titles]
  have nonempty : schema.titles ≠ [] := List.cons_ne_nil _ _
  obtain ⟨start, records', record_read, rest_eq, width_eq'⟩ :=
    RecordReader.next_recordText nonempty input_eq fun width known => by cases width_eq.symm.trans known
  refine ⟨records', ?_, rest_eq, titled ▸ width_eq'⟩
  rw [readTitles, record_read]
  dsimp only [Option.map, Option.getD]
  rw [Schema.ofTitles_titles]

theorem cellsText_eq_cons (schema : Schema) (rows : List (List String)) :
    ∃ text, cellsText schema rows = 0x69 :: text := by
  have titles_eq : schema.titles.map utf8Bytes = [0x69, 0x64] :: (schema.fields.map Field.title).map utf8Bytes := rfl
  obtain ⟨tail, line_eq⟩ := Table.lineText_cons [0x69, 0x64] ((schema.fields.map Field.title).map utf8Bytes)
  have cell_eq : Table.cellText [0x69, 0x64] = [0x69, 0x64] := rfl
  rw [cellsText, titles_eq, Table.recordText, line_eq, cell_eq]
  exact ⟨_, rfl⟩

/-- A table gives back the features of its rows from its text, in whatever pieces that arrives. -/
theorem readTitles_cellsText (name : String) {schema : Schema} {rows : List (List String)} {features : List Feature}
    (read : rows.mapM (Feature.ofCells ⟨name, schema.fields⟩) = .ok features)
    (even : ∀ cells ∈ rows, cells.length = schema.fields.length + 1) {pieces : List Bytes}
    (flatten_eq : pieces.flatten = cellsText schema rows) :
    ∃ reader, readTitles name (.ofPieces (pieces.map .ok)) = .ok reader ∧ reader.schema = ⟨name, schema.fields⟩ ∧
      reader.readAll.1 = .ok features := by
  obtain ⟨text, text_eq⟩ := cellsText_eq_cons schema rows
  have opened := RecordReader.ofPieces_of_front (flatten_eq.trans text_eq) (by decide)
  rw [← text_eq] at opened
  have input_eq : (RecordReader.ofPieces (pieces.map .ok)).input =
      (Table.recordText (schema.titles.map utf8Bytes)).map .ok ++
        (rows.flatMap fun cells => Table.recordText (cells.map utf8Bytes)).map .ok := by
    rw [opened, cellsText, List.map_append]
  have width_eq : (RecordReader.ofPieces (pieces.map .ok)).width = none := by rw [opened]
  obtain ⟨records, titles_read, rest_eq, width_eq'⟩ := readTitles_recordText name schema input_eq width_eq
  exact ⟨_, titles_read, rfl, readAll_cells ⟨⟨name, schema.fields⟩, records⟩ read even rest_eq width_eq'⟩

/-- A table that was written can be read, in whatever pieces it arrives: it has the same fields and the same features
in order, with a value for every field. -/
theorem readAll_writeTable (name : String) {schema : Schema} {features : List Feature}
    (fits : ∀ feature ∈ features, feature.Fits schema.fields) :
    ∃ writer, TableWriter.writeTable (MemorySink.empty none) schema features = (.ok (), writer) ∧
      ∀ pieces : List Bytes, pieces.flatten = writer.records.sink.content → ∀ host,
        Ensures (TableReader.new name (RecordReader.ofPieces (pieces.map .ok))) host fun answer _ =>
          ∃ reader, answer = .ok reader ∧ reader.schema.fields = schema.fields ∧ reader.schema.name = name ∧
            reader.readAll.1 = .ok (features.map (·.settled schema.fields)) := by
  obtain ⟨writer, wrote, content_eq⟩ := TableWriter.writeTable_spec schema features
  refine ⟨writer, wrote, fun pieces flatten_eq host => ?_⟩
  obtain ⟨reader, titles_read, schema_eq, all_read⟩ := readTitles_cellsText name
    (@mapM_ofCells_cells ⟨name, schema.fields⟩ _ fits) (forall_length_cells schema.fields.length features)
    (flatten_eq.trans (content_eq.trans (tableText_eq_cellsText schema features)))
  unfold TableReader.new
  rw [titles_read]
  dsimp only
  rw [Ensures.bind_iff]
  apply Ensures.report
  intro later _
  refine ⟨reader, rfl, ?_, ?_, all_read⟩
  · rw [schema_eq]
  · rw [schema_eq]

/-- A column whose name has a colon, a cell with a tab, quotes and a line break, a value that is missing and one that
is too many. -/
theorem readAll_writeTable_quoted :
    ∃ writer, TableWriter.writeTable (MemorySink.empty none) ⟨"places", [⟨"a:b", .string⟩, ⟨"", .float⟩]⟩
        [⟨"x", [.string "\t\"\n"]⟩, ⟨"y", [.null, .float (.infinity true), .boolean true]⟩] = (.ok (), writer) ∧
      ∀ pieces : List Bytes, pieces.flatten = writer.records.sink.content → ∀ host,
        Ensures (TableReader.new "copy" (RecordReader.ofPieces (pieces.map .ok))) host fun answer _ =>
          ∃ reader, answer = .ok reader ∧ reader.schema.fields = [⟨"a:b", .string⟩, ⟨"", .float⟩] ∧
            reader.schema.name = "copy" ∧ reader.readAll.1 =
              .ok [⟨"x", [.string "\t\"\n", .null]⟩, ⟨"y", [.null, .float (.infinity true)]⟩] := by
  apply readAll_writeTable "copy"
  simp only [List.forall_mem_cons, List.not_mem_nil, false_implies, implies_true, and_true]
  refine ⟨⟨by decide, ?_⟩, ⟨by decide, ?_⟩⟩
  · rintro (_ | _ | index) field ⟨⟩
    · exact ⟨.inr rfl, nofun⟩
    · exact ⟨.inl rfl, trivial⟩
  · rintro (_ | _ | index) field ⟨⟩
    · exact ⟨.inl rfl, trivial⟩
    · exact ⟨.inr rfl, trivial⟩

end TableReader

end SpillSort
