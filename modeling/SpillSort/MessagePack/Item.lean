import SpillSort.Binary64.Basic
import SpillSort.Bytes

/-! # MessagePack items

The values of the format as a tree, with their encoding. Writing takes the shortest form of every
length and number. Reading takes every form, refuses the one marker without a meaning and containers
nested beyond a limit, and leaves what follows the first complete item.
-/

namespace SpillSort

/-- A value of the format. Numbers remember whether their form had a sign. Text is kept as bytes, for
it need not be well formed. -/
inductive Item
  | nil
  | boolean (value : Bool)
  | unsigned (value : UInt64)
  | signed (value : Int64)
  | float (value : Binary64)
  | text (bytes : Bytes)
  | binary (bytes : Bytes)
  | array (items : List Item)
  | map (entries : List (Item × Item))
  | extension (kind : UInt8) (bytes : Bytes)
deriving Repr, Inhabited

namespace Item

/-! ## Writing -/

/-- A length with the marker for its size: one of the short markers from `short` on for lengths below
`shortLimit`, and otherwise the marker for one byte, if there is one, for two or for four. -/
def encodeLength (short shortLimit : Nat) (one? : Option UInt8) (two four : UInt8)
    (length : Nat) : Bytes :=
  if length < shortLimit then [UInt8.ofNat (short + length)]
  else match one? with
    | some one =>
      if length < 2 ^ 8 then one :: Bytes.bigEndian 1 length
      else if length < 2 ^ 16 then two :: Bytes.bigEndian 2 length
      else four :: Bytes.bigEndian 4 length
    | none =>
      if length < 2 ^ 16 then two :: Bytes.bigEndian 2 length
      else four :: Bytes.bigEndian 4 length

def encodeUnsigned (n : Nat) : Bytes :=
  if n < 2 ^ 7 then [UInt8.ofNat n]
  else if n < 2 ^ 8 then 0xCC :: Bytes.bigEndian 1 n
  else if n < 2 ^ 16 then 0xCD :: Bytes.bigEndian 2 n
  else if n < 2 ^ 32 then 0xCE :: Bytes.bigEndian 4 n
  else 0xCF :: Bytes.bigEndian 8 n

/-- A signed number; `word` is its complement on two to the power of 64. -/
def encodeSigned (value : Int) : Bytes :=
  let word := (value % 2 ^ 64).toNat
  if -32 ≤ value ∧ value < 0 then Bytes.bigEndian 1 word
  else if -2 ^ 7 ≤ value ∧ value < 2 ^ 7 then 0xD0 :: Bytes.bigEndian 1 word
  else if -2 ^ 15 ≤ value ∧ value < 2 ^ 15 then 0xD1 :: Bytes.bigEndian 2 word
  else if -2 ^ 31 ≤ value ∧ value < 2 ^ 31 then 0xD2 :: Bytes.bigEndian 4 word
  else 0xD3 :: Bytes.bigEndian 8 word

mutual

/-- The bytes of an item. -/
def encode : Item → Bytes
  | .nil => [0xC0]
  | .boolean false => [0xC2]
  | .boolean true => [0xC3]
  | .unsigned value => encodeUnsigned value.toNat
  | .signed value => encodeSigned value.toInt
  | .float value => 0xCB :: Bytes.bigEndian 8 value.word
  | .text bytes => encodeLength 0xA0 32 (some 0xD9) 0xDA 0xDB bytes.length ++ bytes
  | .binary bytes => encodeLength 0 0 (some 0xC4) 0xC5 0xC6 bytes.length ++ bytes
  | .array items => encodeLength 0x90 16 none 0xDC 0xDD items.length ++ encodeItems items
  | .map entries => encodeLength 0x80 16 none 0xDE 0xDF entries.length ++ encodeEntries entries
  | .extension kind bytes =>
    encodeLength 0 0 (some 0xC7) 0xC8 0xC9 bytes.length ++ kind :: bytes

def encodeItems : List Item → Bytes
  | [] => []
  | item :: items => encode item ++ encodeItems items

def encodeEntries : List (Item × Item) → Bytes
  | [] => []
  | (key, value) :: entries => encode key ++ encode value ++ encodeEntries entries

end

/-! ## Reading -/

/-- Takes a value off the front of a byte string. -/
abbrev Decoder (α : Type) := Bytes → Option (α × Bytes)

/-- A number of so many bytes, high byte first. -/
def takeNumber (width : Nat) : Decoder Nat := fun bytes =>
  (Bytes.split? width bytes).map fun (word, rest) => (Bytes.ofBigEndian word, rest)

/-- So many values in a row. -/
def takeMany {α : Type} (take : Decoder α) : Nat → Decoder (List α)
  | 0, bytes => some ([], bytes)
  | count + 1, bytes =>
    match take bytes with
    | none => none
    | some (value, bytes) =>
      (takeMany take count bytes).map fun (values, rest) => (value :: values, rest)

/-- One value and another. -/
def takePair {α : Type} (take : Decoder α) : Decoder (α × α) := fun bytes =>
  match take bytes with
  | none => none
  | some (first, bytes) => (take bytes).map fun (second, rest) => ((first, second), rest)

/-- The number of two's complement of so many bits. -/
def ofComplement (bits word : Nat) : Int64 :=
  if word < 2 ^ (bits - 1) then Int64.ofInt word else Int64.ofInt (word - 2 ^ bits)

/-- The number of a form of 32 bits. A NaN keeps its sign and becomes quiet. -/
def widen (word : Nat) : Binary64 :=
  let negative : Bool := 2 ^ 31 ≤ word
  let exponent := word / 2 ^ 23 % 2 ^ 8
  let fraction := word % 2 ^ 23
  if exponent = 255 then
    if fraction = 0 then .infinity negative
    else .ofParts negative (2 ^ 52 + (fraction * 2 ^ 29 ||| 2 ^ 51)) 2046
  else if exponent = 0 then
    if fraction = 0 then .ofParts negative 0 0
    else
      let top := fraction.log2
      .ofParts negative (fraction * 2 ^ (52 - top)) (top + 1023 - 149 - 1)
  else .ofParts negative ((2 ^ 23 + fraction) * 2 ^ 29) (exponent + 1023 - 127 - 1)

/-- A text of a length read before. -/
def takeText (length : Nat) : Decoder Item := fun bytes =>
  (Bytes.split? length bytes).map fun (content, rest) => (.text content, rest)

def takeBinary (length : Nat) : Decoder Item := fun bytes =>
  (Bytes.split? length bytes).map fun (content, rest) => (.binary content, rest)

def takeExtension (length : Nat) : Decoder Item
  | [] => none
  | kind :: bytes =>
    (Bytes.split? length bytes).map fun (content, rest) => (.extension kind content, rest)

/-- An array of a length read before, with what takes an item of it. -/
def takeArray (inner? : Option (Decoder Item)) (length : Nat) : Decoder Item := fun bytes =>
  match inner? with
  | none => none
  | some inner => (takeMany inner length bytes).map fun (items, rest) => (.array items, rest)

def takeMap (inner? : Option (Decoder Item)) (length : Nat) : Decoder Item := fun bytes =>
  match inner? with
  | none => none
  | some inner =>
    (takeMany (takePair inner) length bytes).map fun (entries, rest) => (.map entries, rest)

/-- What follows a length of so many bytes. -/
def afterLength {α : Type} (width : Nat) (take : Nat → Decoder α) : Decoder α := fun bytes =>
  match takeNumber width bytes with
  | none => none
  | some (length, bytes) => take length bytes

/-- An unsigned number of so many bytes. -/
def takeUnsigned (width : Nat) : Decoder Item := fun bytes =>
  (takeNumber width bytes).map fun (n, rest) => (.unsigned (UInt64.ofNat n), rest)

/-- A signed number of so many bytes. -/
def takeSigned (width : Nat) : Decoder Item := fun bytes =>
  (takeNumber width bytes).map fun (n, rest) => (.signed (ofComplement (8 * width) n), rest)

/-- What follows a marker. -/
def takeBody (inner? : Option (Decoder Item)) (marker : Nat) : Decoder Item := fun bytes =>
  if marker < 0x80 then some (.unsigned (UInt64.ofNat marker), bytes)
  else if marker < 0x90 then takeMap inner? (marker - 0x80) bytes
  else if marker < 0xA0 then takeArray inner? (marker - 0x90) bytes
  else if marker < 0xC0 then takeText (marker - 0xA0) bytes
  else if 0xE0 ≤ marker then some (.signed (ofComplement 8 marker), bytes)
  else match marker with
    | 0xC0 => some (.nil, bytes)
    | 0xC2 => some (.boolean false, bytes)
    | 0xC3 => some (.boolean true, bytes)
    | 0xC4 => afterLength 1 takeBinary bytes
    | 0xC5 => afterLength 2 takeBinary bytes
    | 0xC6 => afterLength 4 takeBinary bytes
    | 0xC7 => afterLength 1 takeExtension bytes
    | 0xC8 => afterLength 2 takeExtension bytes
    | 0xC9 => afterLength 4 takeExtension bytes
    | 0xCA => (takeNumber 4 bytes).map fun (word, rest) => (.float (widen word), rest)
    | 0xCB => (takeNumber 8 bytes).map fun (word, rest) => (.float ⟨UInt64.ofNat word⟩, rest)
    | 0xCC => takeUnsigned 1 bytes
    | 0xCD => takeUnsigned 2 bytes
    | 0xCE => takeUnsigned 4 bytes
    | 0xCF => takeUnsigned 8 bytes
    | 0xD0 => takeSigned 1 bytes
    | 0xD1 => takeSigned 2 bytes
    | 0xD2 => takeSigned 4 bytes
    | 0xD3 => takeSigned 8 bytes
    | 0xD4 => takeExtension 1 bytes
    | 0xD5 => takeExtension 2 bytes
    | 0xD6 => takeExtension 4 bytes
    | 0xD7 => takeExtension 8 bytes
    | 0xD8 => takeExtension 16 bytes
    | 0xD9 => afterLength 1 takeText bytes
    | 0xDA => afterLength 2 takeText bytes
    | 0xDB => afterLength 4 takeText bytes
    | 0xDC => afterLength 2 (takeArray inner?) bytes
    | 0xDD => afterLength 4 (takeArray inner?) bytes
    | 0xDE => afterLength 2 (takeMap inner?) bytes
    | 0xDF => afterLength 4 (takeMap inner?) bytes
    | _ => none

/-- An item whose containers are nested no deeper than `depth`. -/
def take : Nat → Decoder Item
  | _, [] => none
  | 0, marker :: bytes => takeBody none marker.toNat bytes
  | depth + 1, marker :: bytes => takeBody (some (take depth)) marker.toNat bytes

/-- The deepest nesting of containers that is read. -/
def nestingLimit : Nat := 2047

/-- The item at the front of a byte string. -/
def decode? (bytes : Bytes) : Option Item := (take nestingLimit bytes).map Prod.fst

/-! ## Nesting -/

mutual

/-- How deep the containers in an item are nested. An extension is a container of its bytes. -/
def height : Item → Nat
  | .array items => heightOfItems items + 1
  | .map entries => heightOfEntries entries + 1
  | .extension _ _ => 1
  | _ => 0

def heightOfItems : List Item → Nat
  | [] => 0
  | item :: items => max (height item) (heightOfItems items)

def heightOfEntries : List (Item × Item) → Nat
  | [] => 0
  | (key, value) :: entries => max (max (height key) (height value)) (heightOfEntries entries)

end

end Item

end SpillSort
