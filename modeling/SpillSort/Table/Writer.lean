import SpillSort.Table.Reader
import SpillSort.Table.RecordWriter

/-! # Writing features to a table

The column titles are written first, then one record for each feature, with as many cells as there
are titles: values that are missing are null, and values too many are left out.
-/

namespace SpillSort

/-- The title of an attribute's column. -/
def Field.title (field : Field) : String := field.name ++ ":" ++ field.type.name

/-- The column titles of a schema. -/
def Schema.titles (schema : Schema) : List String := identifierColumn :: schema.fields.map Field.title

/-- The cells of a feature with so many attributes. -/
def Feature.cells (feature : Feature) (attributes : Nat) : List String :=
  feature.id :: (List.range attributes).map fun index => (feature.value index).toCell

/-- A table to be written to. -/
structure TableWriter (ω : Type) where
  records : RecordWriter ω
  attributes : Nat
deriving Repr

namespace TableWriter

variable {ω : Type} [Sink ω]

/-- A step of the record writer. -/
def step (writer : TableWriter ω) (action : RecordWriterM ω Unit) :
    Except TableError Unit × TableWriter ω :=
  let (answer, records) := action.run.run writer.records
  (answer, { writer with records })

/-- Writes a record of texts. -/
def putTexts (writer : TableWriter ω) (cells : List String) :
    Except TableError Unit × TableWriter ω :=
  writer.step (RecordWriter.putRecord (cells.map utf8Bytes))

/-- Writes the column titles. -/
def new (sink : ω) (schema : Schema) : Except TableError Unit × TableWriter ω :=
  putTexts ⟨.new sink, schema.fields.length⟩ schema.titles

/-- Writes a feature. -/
def write (writer : TableWriter ω) (feature : Feature) : Except TableError Unit × TableWriter ω :=
  writer.putTexts (feature.cells writer.attributes)

/-- Hands everything written to the sink. -/
def flush (writer : TableWriter ω) : Except TableError Unit × TableWriter ω :=
  writer.step RecordWriter.flush

end TableWriter

/-- What a copy failed at. -/
inductive CopyError (ε : Type)
  | reading (error : ε)
  | writing (error : TableError)
deriving DecidableEq, Repr

/-- A copy of features, as far as it came: how many were written, and both ends. -/
structure Copy (ρ ω : Type) where
  written : Nat
  source : ρ
  writer : TableWriter ω

namespace Copy

variable {ρ ω ε : Type} [RecordSource ρ Feature ε] [Sink ω]

/-- Copies the features of a source to a table, up to the first failure. -/
def run (copy : Copy ρ ω) (host : Host) :
    (Except (CopyError ε) Unit × Copy ρ ω) × Host :=
  match _read : (RecordSource.next copy.source).run host with
  | ((.error error, source), later) => ((.error (.reading error), { copy with source }), later)
  | ((.ok none, source), later) => ((.ok (), { copy with source }), later)
  | ((.ok (some feature), source), later) =>
    match copy.writer.write feature with
    | (.error error, writer) =>
      ((.error (.writing error), { copy with source, writer }), later)
    | (.ok (), writer) => run ⟨copy.written + 1, source, writer⟩ later
termination_by RecordSource.bound copy.source
decreasing_by exact RecordSource.bound_lt _read

end Copy

end SpillSort
