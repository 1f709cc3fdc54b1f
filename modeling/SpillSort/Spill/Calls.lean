import SpillSort.Sorter.Run
import SpillSort.Spill.Store

/-! # Calls on a store

Runs are written to a store, read from it and disposed of in any order, and the store can be closed and used
again.
-/

namespace SpillSort

variable {α : Type}

/-- What can be asked of a store. -/
inductive StoreCall (α : Type)
  | write (records : List α)
  | openReader (handle : SpillHandle)
  | dispose (handle : SpillHandle)
  | disposeAll
  | close

/-- What a store answers. -/
inductive StoreAnswer (α : Type)
  | written (answer : Except SpillError SpillHandle)
  | opened (answer : Except SpillError (SpillReader α))
  | removed (answer : Except FileError Unit)

/-- The run that was written. -/
def StoreAnswer.handle? : StoreAnswer α → Option SpillHandle
  | .written (.ok handle) => some handle
  | _ => none

namespace SpillStore

/-- The answer to a call. -/
def perform (format : SpillFormat α) (store : SpillStore) : StoreCall α → HostM (StoreAnswer α × SpillStore)
  | .write records => do
    let (answer, store) ← store.write format records
    return (.written answer, store)
  | .openReader handle => do
    return (.opened (← store.openReader format handle), store)
  | .dispose handle => do
    let (answer, store) ← store.dispose handle
    return (.removed answer, store)
  | .disposeAll => do
    let (answer, store) ← store.disposeAll
    return (.removed answer, store)
  | .close => do
    let (answer, store) ← store.close
    return (.removed answer, store)

/-- The answers to some calls. -/
def play (format : SpillFormat α) : List (StoreCall α) → SpillStore → HostM (List (StoreAnswer α) × SpillStore)
  | [], store => return ([], store)
  | call :: calls, store => do
    let (answer, store) ← store.perform format call
    let (answers, store) ← play format calls store
    return (answer :: answers, store)

end SpillStore

namespace SpillReader

/-- Every record given is one less to come. -/
theorem remaining_lt_of_next {reader reader' : SpillReader α} {record : α} {host later : Host}
    (given : reader.next.run host = ((some (.ok record), reader'), later)) : reader'.remaining < reader.remaining := by
  have counted := reader.remaining_next host
  rw [given] at counted
  exact Nat.lt_of_succ_le (Nat.le_of_eq counted)

/-- The records of a run up to its end, or its first error. -/
def collect (reader : SpillReader α) (host : Host) : (Except SpillError (List α) × SpillReader α) × Host :=
  match _given : reader.next.run host with
  | ((none, reader), later) => ((.ok [], reader), later)
  | ((some (.error error), reader), later) => ((.error error, reader), later)
  | ((some (.ok record), reader), later) =>
    let ((records, reader), last) := reader.collect later
    ((records.map (record :: ·), reader), last)
termination_by reader.remaining
decreasing_by exact remaining_lt_of_next _given

end SpillReader

end SpillSort
