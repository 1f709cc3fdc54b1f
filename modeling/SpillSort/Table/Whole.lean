import SpillSort.Table.Writer

/-! # Whole tables

A table is written from a schema and a list of features, and read to its end.
-/

namespace SpillSort

namespace TableWriter

variable {ω : Type} [Sink ω]

/-- Writes features, up to the first failure. -/
def writeAll (writer : TableWriter ω) : List Feature → Except TableError Unit × TableWriter ω
  | [] => (.ok (), writer)
  | feature :: features =>
    match writer.write feature with
    | (.error error, writer) => (.error error, writer)
    | (.ok (), writer) => writer.writeAll features

/-- Writes the column titles and the features, and hands everything over. -/
def writeTable (sink : ω) (schema : Schema) (features : List Feature) : Except TableError Unit × TableWriter ω :=
  match new sink schema with
  | (.error error, writer) => (.error error, writer)
  | (.ok (), writer) =>
    match writer.writeAll features with
    | (.error error, writer) => (.error error, writer)
    | (.ok (), writer) => writer.flush

end TableWriter

namespace TableReader

/-- The features up to the end, or the first error. -/
def readAll (reader : TableReader) : Except TableError (List Feature) × TableReader :=
  match _read : reader.next with
  | (.error error, reader) => (.error error, reader)
  | (.ok none, reader) => (.ok [], reader)
  | (.ok (some feature), reader) =>
    let (features, reader) := reader.readAll
    (features.map (feature :: ·), reader)
termination_by reader.records.input.length
decreasing_by exact length_next _read

end TableReader

end SpillSort
