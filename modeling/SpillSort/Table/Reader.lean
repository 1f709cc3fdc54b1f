import SpillSort.SortedReader
import SpillSort.Table.RecordReader

/-! # Reading features from a table

The first record names the columns: `id`, then one `name:type` for each attribute. Every other record
is a feature. A record that is none is an error, and reading goes on behind it.
-/

namespace SpillSort

/-- The title of the identifier column. -/
def identifierColumn : String := "id"

/-- The attribute that a column title declares. -/
def Field.ofTitle (title : String) : Except TableFault Field :=
  match Text.splitLast? ':' title.toList with
  | none => .error (.untypedColumn title)
  | some (name, type) =>
    match FieldType.ofName? (String.ofList type) with
    | some fieldType => .ok ⟨String.ofList name, fieldType⟩
    | none => .error (.unknownType (String.ofList name) (String.ofList type))

/-- The attributes that column titles declare. -/
def Schema.ofTitles (name : String) : List String → Except TableFault Schema
  | [] => .error .noIdentifierColumn
  | first :: titles =>
    if first = identifierColumn then (titles.mapM Field.ofTitle).map (Schema.mk name)
    else .error .noIdentifierColumn

/-- The values in the cells of a record, as far as there are fields and cells. -/
def readValues : List Field → List String → Except TableFault (List Value)
  | field :: fields, cell :: cells =>
    match Value.ofCell field.type cell with
    | .error fault => .error (.attribute field.name fault)
    | .ok value => (readValues fields cells).map (value :: ·)
  | _, _ => .ok []

/-- The feature in the cells of a record. -/
def Feature.ofCells (schema : Schema) : List String → Except TableFault Feature
  | [] => .error .noIdentifier
  | id :: cells =>
    if id = "" then .error .noIdentifier
    else (readValues schema.fields cells).map (Feature.mk id)

/-- A table whose column titles have been read. -/
structure TableReader where
  schema : Schema
  records : RecordReader
deriving Repr

namespace TableReader

/-- The schema of a table, and the table after its titles. -/
def readTitles (name : String) (records : RecordReader) : Except TableError TableReader :=
  match records.next with
  | (.error error, _) => .error error
  | (.ok record, records) =>
    match Schema.ofTitles name ((record.map (·.cells)).getD []) with
    | .error fault => .error (.malformed 1 fault)
    | .ok schema => .ok ⟨schema, records⟩

/-- Reads the column titles of a table. -/
def new (name : String) (records : RecordReader) : HostM (Except TableError TableReader) := do
  match readTitles name records with
  | .error error => return .error error
  | .ok reader =>
    Host.report .debug s!"feature file header read: {reader.schema.fields.length} attributes"
    return .ok reader

/-- The next feature, or nothing at the end. -/
def next (reader : TableReader) : Except TableError (Option Feature) × TableReader :=
  match reader.records.next with
  | (.error error, records) => (.error error, { reader with records })
  | (.ok none, records) => (.ok none, { reader with records })
  | (.ok (some record), records) =>
    match Feature.ofCells reader.schema record.cells with
    | .error fault => (.error (.malformed record.start.line fault), { reader with records })
    | .ok feature => (.ok (some feature), { reader with records })

/-- Drops what has not been read. -/
def close (reader : TableReader) : TableReader := { reader with records := reader.records.ended }

/-- Every feature uses up some input. -/
theorem length_next {reader reader' : TableReader} {feature : Feature}
    (read : reader.next = (.ok (some feature), reader')) :
    reader'.records.input.length < reader.records.input.length := by
  unfold next at read
  split at read
  · simp at read
  · simp at read
  · next record records step =>
    split at read
    · simp at read
    · simp only [Prod.mk.injEq] at read
      rw [← read.2]
      exact RecordReader.length_next step

end TableReader

instance : FeatureReader TableReader TableError where
  next reader := pure reader.next
  close reader := pure (.ok (), reader.close)
  bound reader := reader.records.input.length
  bound_lt read := TableReader.length_next (congrArg Prod.fst read)
  schema := TableReader.schema

end SpillSort
