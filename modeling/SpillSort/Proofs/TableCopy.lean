import SpillSort.Proofs.Resorting
import SpillSort.Proofs.TableAnswers

/-! # Copies of a table

The text that is written from a table is read again, whatever the table looked like, and is the text that is written
from itself: nothing but the first copy changes how a table is quoted, spaced and spelled.
-/

namespace SpillSort

namespace TableReader

/-- Reads a table to its end. -/
def readTable (name : String) (pieces : List (Except FileError Bytes)) :
    HostM (Except TableError (Schema × List Feature)) := do
  return (← new name (.ofPieces pieces)).bind fun reader => reader.readAll.1.map (reader.schema, ·)

variable {name : String} {schema : Schema} {features : List Feature} {reader : TableReader}

theorem ensures_new {records : RecordReader} (titles_read : readTitles name records = .ok reader) (host : Host) :
    Ensures (new name records) host fun answer _ => answer = .ok reader := by
  unfold new
  rw [titles_read]
  dsimp only
  rw [Ensures.bind_iff]
  exact Ensures.report fun _ _ => rfl

theorem exists_reader_of_readTable {pieces : List (Except FileError Bytes)} {host later : Host}
    (read : (readTable name pieces).run host = (.ok (schema, features), later)) :
    ∃ reader : TableReader, reader.schema = schema ∧ reader.readAll.1 = .ok features := by
  have answered : (((new name (.ofPieces pieces)).run host).1.bind fun reader => reader.readAll.1.map (reader.schema, ·)) =
      .ok (schema, features) := congrArg Prod.fst read
  obtain ⟨reader, -, finished⟩ := exists_of_bind_eq_ok answered
  obtain ⟨features', all, same⟩ := exists_of_map_eq_ok finished
  cases same
  exact ⟨reader, rfl, all⟩

/-- The text of a table is read to its end, in whatever pieces it arrives. -/
theorem readTable_tableText (fits : ∀ feature ∈ features, feature.Fits schema.fields) {pieces : List Bytes}
    (flatten_eq : pieces.flatten = tableText schema features) (host : Host) :
    Ensures (readTable name (pieces.map .ok)) host fun answer _ =>
      answer = .ok (⟨name, schema.fields⟩, features.map (·.settled schema.fields)) := by
  rw [tableText_eq_cellsText] at flatten_eq
  obtain ⟨reader, titles_read, schema_eq, all⟩ := readTitles_cellsText name
    (@mapM_ofCells_cells ⟨name, schema.fields⟩ _ fits) (forall_length_cells schema.fields.length features) flatten_eq
  unfold readTable
  rw [Ensures.bind_iff]
  refine (ensures_new titles_read host).mono fun answer later opened => ?_
  rw [Ensures.pure_iff, opened, ← schema_eq, Except.bind, all]
  rfl

/-- Of a table that is read to its end, however it is quoted, spaced and spelled, a copy can be written. The copy is
itself read to its end, in whatever pieces it arrives and under whatever name, with the fields of the table and with its
features as they are settled, and what is written from these is the copy again, byte for byte. -/
theorem readTable_settles {pieces : List (Except FileError Bytes)} {host later : Host}
    (read : (readTable name pieces).run host = (.ok (schema, features), later)) :
    ∃ writer, TableWriter.writeTable (MemorySink.empty none) schema features = (.ok (), writer) ∧
      ∀ (again : String) (copy : List Bytes), copy.flatten = writer.records.sink.content → ∀ host',
        Ensures (readTable again (copy.map .ok)) host' fun answer _ =>
          ∃ schema' features', answer = .ok (schema', features') ∧ schema'.name = again ∧ schema'.fields = schema.fields ∧
            features' = features.map (·.settled schema.fields) ∧
            ∃ writer', TableWriter.writeTable (MemorySink.empty none) schema' features' = (.ok (), writer') ∧
              writer'.records.sink.content = writer.records.sink.content := by
  obtain ⟨reader, rfl, all⟩ := exists_reader_of_readTable read
  have fits : ∀ feature ∈ features, feature.Fits reader.schema.fields :=
    fun feature present => (parsed_of_readAll all feature present).fits
  obtain ⟨writer, wrote, content_eq⟩ := TableWriter.writeTable_spec reader.schema features
  refine ⟨writer, wrote, fun again copy flatten_eq host' => ?_⟩
  refine (readTable_tableText fits (flatten_eq.trans content_eq) host').mono fun answer _ answered => ?_
  refine ⟨_, _, answered, rfl, rfl, rfl, ?_⟩
  obtain ⟨writer', wrote', content_eq'⟩ := TableWriter.writeTable_spec ⟨again, reader.schema.fields⟩
    (features.map (·.settled reader.schema.fields))
  refine ⟨writer', wrote', ?_⟩
  rw [content_eq', content_eq]
  exact tableText_settled reader.schema again features

/-- A table with a byte order mark, line breaks of both kinds and empty lines, and with cells that are quoted without
need, signs and exponents that are not, infinities and a NaN with a sign, white space in a geometry and parentheses
around its rings. -/
def oddTable : List Bytes :=
  [0xEF :: 0xBB :: 0xBF :: utf8Bytes "id\t\"a:b:float\"\tg:geometry", utf8Bytes "\ts:string\tn:integer\r\n\r\n\n",
    utf8Bytes "\"x\"\t+1e1\t\" POLYGON (((+0 1e0 ,\t2 3", utf8Bytes ")), ((-nan inf,1  2)))\"",
    utf8Bytes "\t\"say \"\"hi\"\"\t\"\t-007\r\n", utf8Bytes "y\t-nan\tPOINT( 1.50   -0 )\t\t+5"]

/-- The lines of its copy. -/
def oddCopy : List Bytes :=
  [utf8Bytes "id\ta:b:float\tg:geometry\ts:string\tn:integer\n",
    utf8Bytes "x\t10\tPOLYGON((0 1, 2 3), (NaN inf, 1 2))\t" ++ utf8Bytes "\"say \"\"hi\"\"\t\"\t-7\n",
    utf8Bytes "y\tNaN\tPOINT(1.5 -0)\t\t5\n"]

def oddSchema : Schema := ⟨"t", [⟨"a:b", .float⟩, ⟨"g", .geometry⟩, ⟨"s", .string⟩, ⟨"n", .integer⟩]⟩

def oddFeatures : List Feature :=
  [⟨"x", [.float ⟨0x4024000000000000⟩,
      .geometry (.polygon [[⟨⟨0⟩, ⟨0x3FF0000000000000⟩⟩, ⟨⟨0x4000000000000000⟩, ⟨0x4008000000000000⟩⟩],
        [⟨.nan true, .infinity false⟩, ⟨⟨0x3FF0000000000000⟩, ⟨0x4000000000000000⟩⟩]]),
      .string "say \"hi\"\t", .integer (-7)]⟩,
    ⟨"y", [.float (.nan true), .geometry (.point ⟨⟨0x3FF8000000000000⟩, ⟨0x8000000000000000⟩⟩), .null, .integer 5]⟩]

/-- It is read, written, read again and written again: its NaN lose their sign on the way, and its copy stays as it is. -/
theorem readTable_settles_odd :
    ∃ later writer, (readTable "t" (oddTable.map .ok)).run default = (.ok (oddSchema, oddFeatures), later) ∧
      TableWriter.writeTable (MemorySink.empty none) oddSchema oddFeatures = (.ok (), writer) ∧
      writer.records.sink.content = oddCopy.flatten ∧ ∀ host,
        Ensures (readTable "copy" (oddCopy.map .ok)) host fun answer _ =>
          ∃ schema features, answer = .ok (schema, features) ∧ schema.name = "copy" ∧ schema.fields = oddSchema.fields ∧
            features = oddFeatures.map (·.settled oddSchema.fields) ∧
            ∃ writer', TableWriter.writeTable (MemorySink.empty none) schema features = (.ok (), writer') ∧
              writer'.records.sink.content = oddCopy.flatten := by
  have answer : ((readTable "t" (oddTable.map .ok)).run default).1.toOption.map id = some (oddSchema, oddFeatures) := by
    decide +kernel
  have text : (TableWriter.writeTable (MemorySink.empty none) oddSchema oddFeatures).2.records.sink.content =
      oddCopy.flatten := by decide +kernel
  obtain ⟨_, later, read, rfl⟩ := exists_of_map_eq_some answer
  obtain ⟨writer, wrote, copied⟩ := readTable_settles read
  rw [wrote] at text
  rw [text] at copied
  exact ⟨later, writer, read, wrote, text, copied "copy" oddCopy rfl⟩

end TableReader

end SpillSort
