import SpillSort.Host
import SpillSort.Spill.Format

/-! # Faults of spilled runs -/

namespace SpillSort

/-- Why a spill file cannot be read as the run that was written. -/
inductive RunFault
  | wrongLength (path : SpillPath) (actual expected : Nat)
  | unknownHeader (path : SpillPath)
  | truncated
  /-- A frame longer than what is left of the file. -/
  | overrun (length left : Nat)
  | payload (fault : PayloadFault)
deriving DecidableEq, Repr

def RunFault.message : RunFault → String
  | .wrongLength path actual expected =>
    s!"spill file {path.text} is {actual} bytes long, {expected} expected"
  | .unknownHeader path => s!"spill file {path.text} has an unknown header"
  | .truncated => "spill file truncated"
  | .overrun length left =>
    s!"frame of {length} bytes overruns the {left} bytes left in the spill file"
  | .payload fault => fault.message

/-- Why a run could not be written or read. -/
inductive SpillError
  | temporaryDirectory (error : FileError)
  | io (error : FileError)
  | encode (reason : String)
  | decode (fault : RunFault)
  /-- A write buffer of a size that cannot be had. Nobody is told of it: whoever asks for the buffer does not
  come back, so this stands for the call that ends there. -/
  | bufferTooLarge (size : Nat)
deriving DecidableEq, Repr

namespace SpillError

/-- The text of what lies behind the error. -/
def cause : SpillError → String
  | .temporaryDirectory error => error.message
  | .io error => error.message
  | .encode reason => reason
  | .decode fault => fault.message
  | .bufferTooLarge size => s!"no buffer of {size} bytes"

def message : SpillError → String
  | .temporaryDirectory error => "temporary directory not created: " ++ error.message
  | .io error => "spill file I/O failed: " ++ error.message
  | .encode reason => "record serialization error: " ++ reason
  | .decode fault => "spill file decoding error: " ++ fault.message
  | .bufferTooLarge size => s!"spill file not buffered: no buffer of {size} bytes"

end SpillError

instance : ErrorText SpillError := ⟨SpillError.message⟩

end SpillSort
