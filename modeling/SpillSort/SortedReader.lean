import SpillSort.SortKey.Comparator
import SpillSort.Sorter.Basic

/-! # Sorted feature readers

A feature reader is a source of features that knows their schema. Sorting one gives another, so sorted
readers can be stacked. Whether the keys fit the schema is settled before any feature is read; if they
do not, the reader is closed without having been read.
-/

namespace SpillSort

/-- A source of features of one schema. -/
class FeatureReader (ρ : Type) (ε : outParam Type) extends RecordSource ρ Feature ε where
  schema : ρ → Schema

/-- Features held in memory. Closing drops those not read yet. -/
structure MemoryReader where
  schema : Schema
  features : List Feature
deriving DecidableEq, Repr

instance : FeatureReader MemoryReader Empty where
  next reader := return match reader.features with
    | [] => (.ok none, reader)
    | feature :: features => (.ok (some feature), { reader with features })
  close reader := return (.ok (), { reader with features := [] })
  bound reader := reader.features.length
  bound_lt {reader reader' feature host host'} read := by
    obtain ⟨schema, features⟩ := reader
    cases features with
    | nil => cases read
    | cons first features =>
      cases read
      exact Nat.lt_succ_self _
  schema := MemoryReader.schema

/-- A source of features with a schema given beside it. -/
structure Described (σ : Type) where
  schema : Schema
  source : σ

instance {σ ε : Type} [RecordSource σ Feature ε] : FeatureReader (Described σ) ε where
  next described := do
    let (answer, source) ← RecordSource.next described.source
    return (answer, { described with source })
  close described := do
    let (answer, source) ← RecordSource.close described.source
    return (answer, { described with source })
  bound described := RecordSource.bound described.source
  bound_lt {described described' feature host host'} read := by
    simp only [StateT.run_bind, StateT.run_pure] at read
    generalize step : (RecordSource.next described.source).run host = result at read
    obtain ⟨⟨answer, source⟩, after⟩ := result
    cases read
    exact RecordSource.bound_lt step
  schema := Described.schema

instance {ρ ε : Type} [FeatureReader ρ ε] : FeatureReader (Counted ρ) ε where
  schema counted := FeatureReader.schema counted.source

/-- The features of another reader in sorted order. -/
structure SortedReader (ρ : Type) where
  schema : Schema
  stream : SortedStream ρ Feature

instance {ρ ε : Type} [FeatureReader ρ ε] : FeatureReader (SortedReader ρ) (SortError ε) where
  next reader := do
    let (answer, stream) ← reader.stream.next
    return (answer, { reader with stream })
  close reader := do
    let (answer, stream) ← reader.stream.close
    return (answer, { reader with stream })
  bound reader := reader.stream.bound
  bound_lt {reader reader' feature host host'} read := by
    simp only [StateT.run_bind, StateT.run_pure] at read
    generalize step : (SortedStream.next (ε := ε) reader.stream).run host = result at read
    obtain ⟨⟨answer, stream⟩, after⟩ := result
    cases read
    exact SortedStream.bound_next step
  schema := SortedReader.schema

namespace SortedReader

variable {ρ ε : Type} [FeatureReader ρ ε] [ErrorText ε]

/-- Closes a reader that will not be sorted; a failing close is only logged. -/
def closeQuietly (reader : ρ) : HostM ρ := do
  let (closed, reader) ← RecordSource.close reader
  if let .error error := closed then
    Host.report .warn s!"feature reader not closed: {ErrorText.message error}"
  return reader

/-- Sorts the features of a reader with a sorter at hand. -/
def withSorter (sorter : Sorter) (format : SpillFormat Feature) (reader : ρ) (keys : List SortKey)
    (registry : OrderingRegistry) : HostM (Except (SortFailure ρ ε) (SortedReader ρ)) := do
  let schema := FeatureReader.schema reader
  match FeatureComparator.resolve schema keys registry with
  | .error fault =>
    Host.report .error s!"features of {schema.name} cannot be sorted: {fault.message}"
    return .error ⟨.infeasible fault, ← closeQuietly reader⟩
  | .ok comparator =>
    return (← sorter.sortBy format comparator.compare reader).map fun stream => ⟨schema, stream⟩

/-- Sorts the features of a reader with at most `pageSize` of them in memory, by the orderings of the
scalar types. -/
def new (format : SpillFormat Feature) (reader : ρ) (keys : List SortKey) (pageSize : Nat) :
    HostM (Except (SortFailure ρ ε) (SortedReader ρ)) := do
  match ← Sorter.build (ε := ε) { SorterOptions.standard with pageSize } with
  | .error error => return .error ⟨error, ← closeQuietly reader⟩
  | .ok sorter => withSorter sorter format reader keys .scalars

/-- Discards the sorted features. -/
def discard (reader : SortedReader ρ) : HostM (SortedReader ρ) := do
  return { reader with stream := ← reader.stream.discard }

end SortedReader

end SpillSort
