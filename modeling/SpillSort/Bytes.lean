/-! # Byte strings and fixed-width words

Byte strings are lists, so that reading is taking from the front. A word of `n` bytes is written
with its low byte first (`littleEndian`) or its high byte first (`bigEndian`); a number too large
for its width loses its high part.
-/

-- Powers of numbers are those of the core library, also where another library brings its own.
attribute [instance (high), default_instance high] instPowNat

namespace SpillSort

/-- A byte string. -/
abbrev Bytes := List UInt8

namespace Bytes

/-- The low `width` bytes of a number, lowest first. -/
def littleEndian : Nat → Nat → Bytes
  | 0, _ => []
  | width + 1, n => UInt8.ofNat n :: littleEndian width (n / 256)

/-- The number a byte string holds, lowest byte first. -/
def ofLittleEndian : Bytes → Nat
  | [] => 0
  | byte :: rest => byte.toNat + 256 * ofLittleEndian rest

/-- The low `width` bytes of a number, highest first. -/
def bigEndian (width n : Nat) : Bytes := (littleEndian width n).reverse

/-- The number a byte string holds, highest byte first. -/
def ofBigEndian (bytes : Bytes) : Nat := ofLittleEndian bytes.reverse

/-- The first `n` bytes and what follows them, if there are that many. -/
def split? (n : Nat) (bytes : Bytes) : Option (Bytes × Bytes) :=
  if n ≤ bytes.length then some (bytes.splitAt n) else none

end Bytes

/-- The UTF-8 form of a text. -/
def utf8Bytes (text : String) : Bytes := text.toList.flatMap String.utf8EncodeChar

end SpillSort
