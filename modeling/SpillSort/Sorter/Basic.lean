import SpillSort.Sorter.Filling
import SpillSort.Sorter.Stream

/-! # The external sorter

A sorter is a set of options. Each sort makes a store of its own, so streams of one sorter share no
files. When sorting fails the runs are removed and the source is closed before the error is told, and
the closed source is given back with it. A sort that is given up for want of a write buffer tells no
error: its runs are removed as it unwinds, and its source is dropped as it is.
-/

namespace SpillSort

/-- How to sort. Threads only speed up the sorting of pages, and preallocation only the filling. -/
structure SorterOptions where
  pageSize : Nat
  preallocate : Bool
  bufferSize : Option Nat
  threads : Option Nat
  place : Place
  /-- Sorted records to skip. -/
  offset : Nat
  /-- The most records to give after the offset. -/
  limit : Option Nat
deriving DecidableEq, Repr

def SorterOptions.standard : SorterOptions where
  pageSize := standardPageSize
  preallocate := false
  bufferSize := none
  threads := none
  place := .standard
  offset := 0
  limit := none

/-- Options with room for a record in each page. -/
structure Sorter where
  options : SorterOptions
  pageSize_pos : 0 < options.pageSize
deriving Repr

/-- A sort without a stream: the error, and the source. A sort that failed has closed it, and one that was
given up has not. -/
structure SortFailure (σ ε : Type) where
  error : SortError ε
  source : σ

namespace Sorter

variable {σ α ε : Type}

/-- The sorter with some options, unless its pages could not hold a record or its threads do not start. -/
def build (options : SorterOptions) : HostM (Except (SortError ε) Sorter) := do
  if positive : 0 < options.pageSize then
    match options.threads with
    | none => return .ok ⟨options, positive⟩
    | some threads =>
      Host.report .info s!"initializing thread-pool (threads: {threads})"
      match ← Host.startPool threads with
      | none => return .ok ⟨options, positive⟩
      | some reason => return .error (.threadPool reason)
  else return .error .invalidPageSize

/-- Closes a source after a failure; a failing close is only logged. -/
def releaseSource [RecordSource σ α ε] [ErrorText ε] (source : σ) : HostM σ := do
  let (closed, source) ← RecordSource.close source
  if let .error error := closed then
    Host.report .warn s!"record source not closed: {ErrorText.message error}"
  return source

/-- Ends a sort without a stream. The runs are removed in any case, but only a sort that failed comes to
closing its source. -/
def abort [RecordSource σ α ε] [ErrorText ε] (error : SortError ε) (filling : Filling σ α) :
    HostM (SortFailure σ ε) := do
  let _ ← filling.store.discard
  if error.lacksBuffer then return ⟨error, filling.source⟩
  return ⟨error, ← releaseSource filling.source⟩

/-- A stream before its offset is skipped and its limit set. -/
def openStream (compare : Comparison α) (filling : Filling σ α) :
    Filling.Outcome α → SortedStream σ α
  | .memory records =>
    ⟨.memory records, compare, filling.store, filling.source, none, none, 0⟩
  | .runs readers =>
    ⟨.merging (.new readers), compare, filling.store, filling.source, none, none,
      readers.length - 1⟩

/-- Skips the offset and sets the limit. If that fails the stream is discarded. -/
def position [RecordSource σ α ε] [ErrorText ε] (sorter : Sorter) (stream : SortedStream σ α) :
    HostM (Except (SortFailure σ ε) (SortedStream σ α)) := do
  if sorter.options.offset > 0 then
    Host.report .debug s!"skipping {sorter.options.offset} sorted records"
  match ← stream.skip sorter.options.offset with
  | (.error error, stream) =>
    let stream ← stream.discard
    return .error ⟨error, stream.source⟩
  | (.ok (), stream) => return .ok { stream with remaining := sorter.options.limit }

/-- Sorts the records of a source. The source is read to its end and the offset skipped before this
answers. -/
def sortBy [RecordSource σ α ε] [ErrorText ε] (sorter : Sorter) (format : SpillFormat α)
    (compare : Comparison α) (source : σ) :
    HostM (Except (SortFailure σ ε) (SortedStream σ α)) := do
  let store := SpillStore.new sorter.options.place sorter.options.bufferSize
  match ← Filling.run ⟨compare, format, sorter.options.pageSize⟩ source store with
  | (.error error, filling) => return .error (← abort error filling)
  | (.ok outcome, filling) => sorter.position (openStream compare filling outcome)

end Sorter

end SpillSort
