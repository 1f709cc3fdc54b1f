import SpillSort.Sorter.Basic
import SpillSort.Sorter.Calls

/-! # Streams side by side

One sorter makes any number of streams, each from a source of its own. They are built, called and dropped in any order
on the same temporary store. A stream that could not be built is gone, as is one that was dropped.
-/

namespace SpillSort

/-- A source, and how its records are compared and stored. -/
structure SortJob (σ α : Type) where
  source : σ
  compare : Comparison α
  format : SpillFormat α

/-- What can be asked about one of many streams. -/
inductive PoolRequest
  | build
  | call (call : StreamCall)
  | drop
deriving DecidableEq, Repr

/-- What is answered. -/
inductive PoolAnswer (α ε : Type)
  | built (answer : Except (SortError ε) Unit)
  | called (answer : StreamAnswer α ε)
  | dropped
  /-- There was no source to sort, or no stream to call or drop. -/
  | refused

/-- The place of one stream. -/
inductive Slot (σ α : Type)
  | waiting (job : SortJob σ α)
  | opened (stream : SortedStream σ α)
  | gone

namespace Slot

variable {σ α ε : Type}

/-- The directory of the stream's runs. -/
def directory? : Slot σ α → Option Nat
  | .opened stream => stream.store.directory
  | .waiting _ | .gone => none

/-- The answer to a request. A stream that is dropped is discarded. -/
def perform [RecordSource σ α ε] [ErrorText ε] (sorter : Sorter) :
    Slot σ α → PoolRequest → HostM (PoolAnswer α ε × Slot σ α)
  | .waiting job, .build => do
    match ← sorter.sortBy job.format job.compare job.source with
    | .error failure => return (.built (.error failure.error), .gone)
    | .ok stream => return (.built (.ok ()), .opened stream)
  | .opened stream, .call call => do
    let (answer, stream) ← stream.perform call
    return (.called answer, .opened stream)
  | .opened stream, .drop => do
    let _ ← stream.discard
    return (.dropped, .gone)
  | slot, _ => return (.refused, slot)

/-- The answers to some requests. -/
def play [RecordSource σ α ε] [ErrorText ε] (sorter : Sorter) :
    List PoolRequest → Slot σ α → HostM (List (PoolAnswer α ε) × Slot σ α)
  | [], slot => return ([], slot)
  | request :: requests, slot => do
    let (answer, slot) ← slot.perform sorter request
    let (answers, slot) ← play sorter requests slot
    return (answer :: answers, slot)

end Slot

/-- The streams of one sorter by their indices, each with a source of its own type. -/
def Pool {ι : Type} (σ : ι → Type) (α : Type) := ∀ index, Slot (σ index) α

namespace Pool

variable {ι : Type} {σ : ι → Type} {α ε : Type}

/-- Nothing has been sorted yet. -/
def ofJobs (jobs : ∀ index, SortJob (σ index) α) : Pool σ α := fun index => .waiting (jobs index)

variable [DecidableEq ι]

/-- The pool with another slot at an index. -/
def set (pool : Pool σ α) (index : ι) (slot : Slot (σ index) α) : Pool σ α := fun other =>
  if same : other = index then same ▸ slot else pool other

variable [∀ index, RecordSource (σ index) α ε] [ErrorText ε]

/-- The answer to a request about one stream, with its index. -/
def perform (sorter : Sorter) (pool : Pool σ α) (index : ι) (request : PoolRequest) :
    HostM ((ι × PoolAnswer α ε) × Pool σ α) := do
  let (answer, slot) ← (pool index).perform sorter request
  return ((index, answer), pool.set index slot)

/-- The answers to some requests, each with the index it was about. -/
def play (sorter : Sorter) : List (ι × PoolRequest) → Pool σ α → HostM (List (ι × PoolAnswer α ε) × Pool σ α)
  | [], pool => return ([], pool)
  | (index, request) :: requests, pool => do
    let (answer, pool) ← pool.perform sorter index request
    let (answers, pool) ← play sorter requests pool
    return (answer :: answers, pool)

end Pool

end SpillSort
