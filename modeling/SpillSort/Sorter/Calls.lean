import SpillSort.Sorter.Stream

/-! # Calls on a stream

Who has a stream may ask it for records in several ways, in any order, and close it at any time. Between
two calls the temporary store may change from outside.
-/

namespace SpillSort

variable {σ α ε : Type}

/-- What can be asked of a stream. -/
inductive StreamCall
  | hasNext
  | next
  /-- The next record as an item of an iterator. -/
  | iterate
  | close
deriving DecidableEq, Repr

/-- What a stream answers. -/
inductive StreamAnswer (α ε : Type)
  | more (answer : Except (SortError ε) Bool)
  | next (answer : Except (SortError ε) (Option α))
  | item (answer : Option (Except (SortError ε) α))
  | closed (answer : Except (SortError ε) Unit)

namespace StreamAnswer

/-- The answer to a request for a record as iterators give it. -/
def iterated : Except (SortError ε) (Option α) → StreamAnswer α ε
  | .ok (some record) => .item (some (.ok record))
  | .ok none => .item none
  | .error error => .item (some (.error error))

/-- The record that was given. -/
def record? : StreamAnswer α ε → Option α
  | .next (.ok record) => record
  | .item (some (.ok record)) => some record
  | _ => none

/-- The error that was told. -/
def error? : StreamAnswer α ε → Option (SortError ε)
  | .more (.error error) => some error
  | .next (.error error) => some error
  | .item (some (.error error)) => some error
  | .closed (.error error) => some error
  | _ => none

/-- The stream said that there is nothing more. -/
def saysEnd : StreamAnswer α ε → Bool
  | .more (.ok false) => true
  | .next (.ok none) => true
  | .item none => true
  | _ => false

/-- The answer is one to a request to close. -/
def isClosing : StreamAnswer α ε → Bool
  | .closed _ => true
  | _ => false

end StreamAnswer

/-- What happens to a stream: a call, or a change of the temporary store from outside. -/
inductive StreamEvent
  | call (call : StreamCall)
  | outside (change : Disk → Disk)

namespace SortedStream

/-- The answer to a call. -/
def perform [RecordSource σ α ε] (stream : SortedStream σ α) :
    StreamCall → HostM (StreamAnswer α ε × SortedStream σ α)
  | .hasNext => do
    let (answer, stream) ← stream.hasNext
    return (.more answer, stream)
  | .next => do
    let (answer, stream) ← stream.next
    return (.next answer, stream)
  | .iterate => do
    let (answer, stream) ← stream.next
    return (.iterated answer, stream)
  | .close => do
    let (answer, stream) ← stream.close
    return (.closed answer, stream)

/-- The answers to the calls among some events. -/
def play [RecordSource σ α ε] : List StreamEvent → SortedStream σ α →
    HostM (List (StreamAnswer α ε) × SortedStream σ α)
  | [], stream => return ([], stream)
  | .call call :: events, stream => do
    let (answer, stream) ← stream.perform call
    let (answers, stream) ← play events stream
    return (answer :: answers, stream)
  | .outside change :: events, stream => do
    Host.onDisk fun disk => ((), change disk)
    play events stream

/-- The records of a stream up to its end, or its first error. -/
def collect [RecordSource σ α ε] (stream : SortedStream σ α) (host : Host) :
    (Except (SortError ε) (List α) × SortedStream σ α) × Host :=
  match _given : (stream.next (ε := ε)).run host with
  | ((.error error, stream), later) => ((.error error, stream), later)
  | ((.ok none, stream), later) => ((.ok [], stream), later)
  | ((.ok (some record), stream), later) =>
    let ((records, stream), last) := stream.collect later
    ((records.map (record :: ·), stream), last)
termination_by stream.bound
decreasing_by exact bound_next _given

end SortedStream

end SpillSort
