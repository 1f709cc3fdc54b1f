import SpillSort.SortKey.Comparator
import SpillSort.Spill.Error

/-! # Faults of sorting -/

namespace SpillSort

/-- Why sorting failed, for a source with errors of type `ε`. An error of the source is passed on
unchanged. -/
inductive SortError (ε : Type)
  | infeasible (fault : Infeasible)
  | invalidPageSize
  | temporaryDirectory (error : FileError)
  | threadPool (reason : String)
  | spillWrite (error : SpillError)
  | spillRead (error : SpillError)
  | cleanup (error : FileError)
  | usedAfterClose
  | input (error : ε)
deriving DecidableEq, Repr

namespace SortError

variable {ε : Type}

/-- A run was found truncated or damaged. -/
def isDecodeError : SortError ε → Bool
  | .spillRead (.decode _) => true
  | _ => false

/-- The sort did not fail but was given up, for want of a write buffer. -/
def lacksBuffer : SortError ε → Bool
  | .spillWrite (.bufferTooLarge _) => true
  | _ => false

/-- The error of a run that could not be written. -/
def ofWrite : SpillError → SortError ε
  | .temporaryDirectory error => .temporaryDirectory error
  | error => .spillWrite error

variable [ErrorText ε]

/-- The text of what lies behind the error, if anything does. -/
def cause? : SortError ε → Option String
  | .infeasible fault => some fault.message
  | .invalidPageSize => none
  | .temporaryDirectory error => some error.message
  | .threadPool reason => some reason
  | .spillWrite error => some error.message
  | .spillRead error => some error.message
  | .cleanup error => some error.message
  | .usedAfterClose => none
  | .input error => some (ErrorText.message error)

def message : SortError ε → String
  | .infeasible fault => "sort is not feasible: " ++ fault.message
  | .invalidPageSize => "page size must be at least one record"
  | .temporaryDirectory error => "temporary directory or file not created: " ++ error.message
  | .threadPool reason => "thread pool initialization failed: " ++ reason
  | .spillWrite error => "sorted run not saved: " ++ error.message
  | .spillRead error => "sorted run not read: " ++ error.message
  | .cleanup error => "spill files not removed: " ++ error.message
  | .usedAfterClose => "sorted stream used after close"
  | .input error => "input data stream error: " ++ ErrorText.message error

end SortError

instance {ε : Type} [ErrorText ε] : ErrorText (SortError ε) := ⟨SortError.message⟩

end SpillSort
