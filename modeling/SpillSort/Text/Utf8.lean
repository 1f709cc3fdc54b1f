import SpillSort.Bytes

/-! # Reading UTF-8

Text is read one character at a time from the front of a byte string. Bytes that begin no character
stop the reading, and the answer is then how many bytes were well formed before them.
-/

namespace SpillSort.Utf8

/-- The character a byte string begins with. -/
def front? (bytes : Bytes) : Option Char :=
  ((bytes.take 4).toByteArray).utf8DecodeChar? 0

/-- All characters, or the number of bytes before the first that is out of place. `start` is the
number of bytes read before. -/
def decodeFrom (start : Nat) (bytes : Bytes) : Except Nat (List Char) :=
  match bytes with
  | [] => .ok []
  | first :: rest =>
    match front? (first :: rest) with
    | none => .error start
    | some c =>
      (decodeFrom (start + c.utf8Size) ((first :: rest).drop c.utf8Size)).map (c :: ·)
termination_by bytes.length
decreasing_by
  have := c.utf8Size_pos
  simp only [List.length_drop, List.length_cons]
  omega

/-- The text of a byte string, or the number of bytes that are well formed at its front. -/
def decode (bytes : Bytes) : Except Nat String := (decodeFrom 0 bytes).map String.ofList

end SpillSort.Utf8
