import SpillSort.MessagePack.Item
import SpillSort.Proofs.FrameReading

/-! # Reading items back

An item is read back from the front of its encoding, whatever follows it: every length and number is written in a
form that is read to the same value. A length has at most four bytes, so this holds of items in which nothing is too
long to be counted by them, and containers are read only as deep as they are asked for.
-/

namespace SpillSort

/-! ## Words -/

namespace Bytes

@[simp] theorem length_bigEndian (width n : Nat) : (bigEndian width n).length = width := by simp [bigEndian]

theorem ofBigEndian_bigEndian (width n : Nat) : ofBigEndian (bigEndian width n) = n % 256 ^ width := by
  rw [ofBigEndian, bigEndian, List.reverse_reverse, ofLittleEndian_littleEndian_mod]

theorem split?_append (front rest : Bytes) : split? front.length (front ++ rest) = some (front, rest) := by
  rw [split?, if_pos (by simp), List.splitAt_eq, List.take_left, List.drop_left]

end Bytes

namespace Item

open Bytes

theorem takeNumber_bigEndian (width n : Nat) (rest : Bytes) :
    takeNumber width (bigEndian width n ++ rest) = some (n % 256 ^ width, rest) := by
  have cut := split?_append (bigEndian width n) rest
  rw [length_bigEndian] at cut
  rw [takeNumber, cut, Option.map_some]
  dsimp only
  rw [ofBigEndian_bigEndian]

/-- What reads the items of a container in which there may be so many levels. -/
def inner? : Nat → Option (Decoder Item)
  | 0 => none
  | depth + 1 => some (take depth)

theorem take_cons (depth : Nat) (marker : UInt8) (bytes : Bytes) :
    take depth (marker :: bytes) = takeBody (inner? depth) marker.toNat bytes := by
  cases depth <;> rfl

/-! ## Numbers -/

theorem take_encodeUnsigned (depth : Nat) (value : UInt64) (rest : Bytes) :
    take depth (encodeUnsigned value.toNat ++ rest) = some (.unsigned value, rest) := by
  have bound : value.toNat < 2 ^ 64 := value.toNat_lt
  -- The forms with a marker differ in nothing but their width.
  have marked {marker : UInt8} {width : Nat} (fits : value.toNat < 256 ^ width)
      (reads : ∀ bytes, takeBody (inner? depth) marker.toNat bytes = takeUnsigned width bytes) :
      take depth (marker :: bigEndian width value.toNat ++ rest) = some (.unsigned value, rest) := by
    rw [List.cons_append, take_cons, reads, takeUnsigned, takeNumber_bigEndian, Nat.mod_eq_of_lt fits, Option.map_some]
    dsimp only
    rw [UInt64.ofNat_toNat]
  unfold encodeUnsigned
  split
  · next small =>
    have marker_eq : (UInt8.ofNat value.toNat).toNat = value.toNat := UInt8.toNat_ofNat_of_lt (Nat.lt_trans small (by decide))
    rw [List.cons_append, List.nil_append, take_cons, marker_eq]
    unfold takeBody
    rw [if_pos small, UInt64.ofNat_toNat]
  · split
    · next fits => exact marked fits fun _ => rfl
    · split
      · next fits => exact marked fits fun _ => rfl
      · split
        · next fits => exact marked fits fun _ => rfl
        · exact marked bound fun _ => rfl

/-- A number of two's complement is read from its word, if the word is wide enough. -/
theorem ofComplement_word (value : Int) {bits word : Nat} (word_eq : (value % 2 ^ 64).toNat % 2 ^ bits = word)
    (wide : bits = 8 ∨ bits = 16 ∨ bits = 32 ∨ bits = 64) (lower : -2 ^ (bits - 1) ≤ value)
    (upper : value < 2 ^ (bits - 1)) : ofComplement bits word = Int64.ofInt value := by
  unfold ofComplement
  rcases wide with rfl | rfl | rfl | rfl
  all_goals
    simp only [Nat.reduceSub, Nat.reducePow, Int.reducePow, Int.reduceNeg] at *
    split
    · congr 1
      omega
    · congr 1
      omega

theorem take_encodeSigned (depth : Nat) (value : Int64) (rest : Bytes) :
    take depth (encodeSigned value.toInt ++ rest) = some (.signed value, rest) := by
  have lower : -2 ^ 63 ≤ value.toInt := value.le_toInt
  have upper : value.toInt < 2 ^ 63 := value.toInt_lt
  unfold encodeSigned
  dsimp only
  generalize word_eq : (value.toInt % 2 ^ 64).toNat = word
  have marked {marker : UInt8} {width : Nat} (reads : ∀ bytes, takeBody (inner? depth) marker.toNat bytes = takeSigned width bytes)
      (fits : ofComplement (8 * width) (word % 256 ^ width) = Int64.ofInt value.toInt) :
      take depth (marker :: bigEndian width word ++ rest) = some (.signed value, rest) := by
    rw [List.cons_append, take_cons, reads, takeSigned, takeNumber_bigEndian, Option.map_some]
    dsimp only
    rw [fits, Int64.ofInt_toInt]
  split
  · next small =>
    have marker_eq : bigEndian 1 word = [UInt8.ofNat word] := rfl
    have marker_toNat : (UInt8.ofNat word).toNat = word % 256 := UInt8.toNat_ofNat
    rw [marker_eq, List.cons_append, List.nil_append, take_cons, marker_toNat]
    unfold takeBody
    rw [if_neg (by omega), if_neg (by omega), if_neg (by omega), if_neg (by omega), if_pos (by omega),
      ofComplement_word value.toInt (by rw [word_eq]) (by simp) (by omega) (by omega), Int64.ofInt_toInt]
  · split
    · next fits => exact marked (fun _ => rfl) (ofComplement_word _ (by rw [word_eq]) (by simp) fits.1 fits.2)
    · split
      · next fits => exact marked (fun _ => rfl) (ofComplement_word _ (by rw [word_eq]) (by simp) fits.1 fits.2)
      · split
        · next fits => exact marked (fun _ => rfl) (ofComplement_word _ (by rw [word_eq]) (by simp) fits.1 fits.2)
        · exact marked (fun _ => rfl) (ofComplement_word _ (by rw [word_eq]) (by simp) lower upper)

/-! ## Lengths -/

/-- A length is read back whatever form it has, and what follows it is read with it. -/
theorem take_encodeLength (body : Nat → Decoder Item) {depth short limit length : Nat} {one? : Option UInt8}
    {two four : UInt8} {rest : Bytes} (small : length < 2 ^ 32) (room : short + limit ≤ 256)
    (shortly : length < limit → takeBody (inner? depth) (short + length) rest = body length rest)
    (one_reads : ∀ one, one? = some one → ∀ bytes, takeBody (inner? depth) one.toNat bytes = afterLength 1 body bytes)
    (two_reads : ∀ bytes, takeBody (inner? depth) two.toNat bytes = afterLength 2 body bytes)
    (four_reads : ∀ bytes, takeBody (inner? depth) four.toNat bytes = afterLength 4 body bytes) :
    take depth (encodeLength short limit one? two four length ++ rest) = body length rest := by
  have marked {marker : UInt8} {width : Nat} (fits : length < 256 ^ width)
      (reads : ∀ bytes, takeBody (inner? depth) marker.toNat bytes = afterLength width body bytes) :
      take depth (marker :: bigEndian width length ++ rest) = body length rest := by
    rw [List.cons_append, take_cons, reads, afterLength, takeNumber_bigEndian]
    dsimp only
    rw [Nat.mod_eq_of_lt fits]
  unfold encodeLength
  split
  · next brief =>
    have marker_eq : (UInt8.ofNat (short + length)).toNat = short + length :=
      UInt8.toNat_ofNat_of_lt (Nat.lt_of_lt_of_le (Nat.add_lt_add_left brief short) room)
    rw [List.cons_append, List.nil_append, take_cons, marker_eq, shortly brief]
  · split
    · next one =>
      split
      · next fits => exact marked fits (one_reads one rfl)
      · split
        · next fits => exact marked fits two_reads
        · exact marked small four_reads
    · split
      · next fits => exact marked fits two_reads
      · exact marked small four_reads

theorem encodeLength_ne_nil (short limit : Nat) (one? : Option UInt8) (two four : UInt8) (length : Nat) :
    encodeLength short limit one? two four length ≠ [] := by
  unfold encodeLength
  repeat' split
  all_goals exact List.cons_ne_nil _ _

/-! ## Items -/

mutual

/-- Everything in an item that is written behind a length can be counted by four bytes. -/
def Countable : Item → Prop
  | .text bytes => bytes.length < 2 ^ 32
  | .binary bytes => bytes.length < 2 ^ 32
  | .array items => items.length < 2 ^ 32 ∧ CountableItems items
  | .map entries => entries.length < 2 ^ 32 ∧ CountableEntries entries
  | .extension _ bytes => bytes.length < 2 ^ 32
  | _ => True

def CountableItems : List Item → Prop
  | [] => True
  | item :: items => Countable item ∧ CountableItems items

def CountableEntries : List (Item × Item) → Prop
  | [] => True
  | (key, value) :: entries => (Countable key ∧ Countable value) ∧ CountableEntries entries

end

theorem encode_ne_nil (item : Item) : encode item ≠ [] := by
  cases item with
  | nil => exact List.cons_ne_nil _ _
  | boolean value => cases value <;> exact List.cons_ne_nil _ _
  | unsigned value =>
    unfold encode encodeUnsigned
    repeat' split
    all_goals exact List.cons_ne_nil _ _
  | signed value =>
    unfold encode encodeSigned
    repeat' split
    all_goals exact List.cons_ne_nil _ _
  | float value => exact List.cons_ne_nil _ _
  | text bytes | binary bytes | array items | map entries | extension kind bytes =>
    exact List.append_ne_nil_of_left_ne_nil (encodeLength_ne_nil _ _ _ _ _ _) _

theorem length_le_encodeItems (items : List Item) : items.length ≤ (encodeItems items).length := by
  induction items with
  | nil => exact Nat.le_refl _
  | cons item items ih =>
    have first := List.length_pos_iff.mpr (encode_ne_nil item)
    rw [encodeItems, List.length_append, List.length_cons]
    omega

theorem length_le_encodeEntries (entries : List (Item × Item)) : entries.length ≤ (encodeEntries entries).length := by
  induction entries with
  | nil => exact Nat.le_refl _
  | cons entry entries ih =>
    obtain ⟨key, value⟩ := entry
    have first := List.length_pos_iff.mpr (encode_ne_nil key)
    simp only [encodeEntries, List.length_append, List.length_cons]
    omega

theorem takeMany_cons {α : Type} {take : Decoder α} {value : α} {values : List α} {bytes between rest : Bytes}
    (first : take bytes = some (value, between)) (others : takeMany take values.length between = some (values, rest)) :
    takeMany take (value :: values).length bytes = some (value :: values, rest) := by
  rw [List.length_cons, takeMany, first]
  dsimp only
  rw [others]
  rfl

mutual

/-- An item is read from the front of what begins with its encoding. -/
theorem take_encode (item : Item) {depth : Nat} (rest : Bytes) (shallow : item.height ≤ depth)
    (countable : item.Countable) : take depth (encode item ++ rest) = some (item, rest) := by
  match item with
  | .nil =>
    rw [encode, List.cons_append, take_cons]
    rfl
  | .boolean false =>
    rw [encode, List.cons_append, take_cons]
    rfl
  | .boolean true =>
    rw [encode, List.cons_append, take_cons]
    rfl
  | .unsigned value => exact take_encodeUnsigned depth value rest
  | .signed value => exact take_encodeSigned depth value rest
  | .float value =>
    have fits : value.word < 256 ^ 8 := value.bits.toNat_lt
    have reads (bytes : Bytes) : takeBody (inner? depth) (0xCB : UInt8).toNat bytes =
        (takeNumber 8 bytes).map fun (word, rest) => (.float ⟨UInt64.ofNat word⟩, rest) := rfl
    rw [encode, List.cons_append, take_cons, reads, takeNumber_bigEndian, Option.map_some]
    dsimp only
    rw [Nat.mod_eq_of_lt fits, Binary64.word, UInt64.ofNat_toNat]
  | .text bytes =>
    rw [encode, List.append_assoc, take_encodeLength takeText countable (by decide)]
    · rw [takeText, split?_append, Option.map_some]
    · intro brief
      unfold takeBody
      rw [if_neg (by omega), if_neg (by omega), if_neg (by omega), if_pos (by omega), Nat.add_sub_cancel_left]
    · rintro one ⟨⟩ _
      rfl
    · exact fun _ => rfl
    · exact fun _ => rfl
  | .binary bytes =>
    rw [encode, List.append_assoc, take_encodeLength takeBinary countable (by decide)]
    · rw [takeBinary, split?_append, Option.map_some]
    · exact fun brief => absurd brief (Nat.not_lt_zero _)
    · rintro one ⟨⟩ _
      rfl
    · exact fun _ => rfl
    · exact fun _ => rfl
  | .extension kind bytes =>
    rw [encode, List.append_assoc, take_encodeLength takeExtension countable (by decide)]
    · rw [List.cons_append, takeExtension, split?_append, Option.map_some]
    · exact fun brief => absurd brief (Nat.not_lt_zero _)
    · rintro one ⟨⟩ _
      rfl
    · exact fun _ => rfl
    · exact fun _ => rfl
  | .array items =>
    obtain ⟨counted, countable⟩ := countable
    rw [height] at shallow
    obtain ⟨depth, rfl⟩ : ∃ deeper, depth = deeper + 1 := ⟨depth - 1, by omega⟩
    rw [encode, List.append_assoc, take_encodeLength (takeArray (inner? (depth + 1))) counted (by decide)]
    · rw [inner?, takeArray]
      dsimp only
      rw [takeMany_encodeItems items rest (by omega) countable, Option.map_some]
    · intro brief
      unfold takeBody
      rw [if_neg (by omega), if_neg (by omega), if_pos (by omega), Nat.add_sub_cancel_left]
    · exact nofun
    · exact fun _ => rfl
    · exact fun _ => rfl
  | .map entries =>
    obtain ⟨counted, countable⟩ := countable
    rw [height] at shallow
    obtain ⟨depth, rfl⟩ : ∃ deeper, depth = deeper + 1 := ⟨depth - 1, by omega⟩
    rw [encode, List.append_assoc, take_encodeLength (takeMap (inner? (depth + 1))) counted (by decide)]
    · rw [inner?, takeMap]
      dsimp only
      rw [takeMany_encodeEntries entries rest (by omega) countable, Option.map_some]
    · intro brief
      unfold takeBody
      rw [if_neg (by omega), if_pos (by omega), Nat.add_sub_cancel_left]
    · exact nofun
    · exact fun _ => rfl
    · exact fun _ => rfl

theorem takeMany_encodeItems (items : List Item) {depth : Nat} (rest : Bytes) (shallow : heightOfItems items ≤ depth)
    (countable : CountableItems items) :
    takeMany (take depth) items.length (encodeItems items ++ rest) = some (items, rest) := by
  match items with
  | [] => rfl
  | item :: items =>
    rw [heightOfItems] at shallow
    rw [encodeItems, List.append_assoc]
    exact takeMany_cons (take_encode item _ (by omega) countable.1)
      (takeMany_encodeItems items rest (by omega) countable.2)

theorem takeMany_encodeEntries (entries : List (Item × Item)) {depth : Nat} (rest : Bytes)
    (shallow : heightOfEntries entries ≤ depth) (countable : CountableEntries entries) :
    takeMany (takePair (take depth)) entries.length (encodeEntries entries ++ rest) = some (entries, rest) := by
  match entries with
  | [] => rfl
  | (key, value) :: entries =>
    rw [heightOfEntries] at shallow
    obtain ⟨⟨key_countable, value_countable⟩, countable⟩ := countable
    rw [encodeEntries, List.append_assoc, List.append_assoc]
    refine takeMany_cons ?_ (takeMany_encodeEntries entries rest (by omega) countable)
    rw [takePair, take_encode key _ (by omega) key_countable]
    dsimp only
    rw [take_encode value _ (by omega) value_countable]
    rfl

end

/-- The item at the front of what begins with an encoding is the one encoded. -/
theorem decode?_encode_append {item : Item} (shallow : item.height ≤ nestingLimit) (countable : item.Countable)
    (rest : Bytes) : decode? (encode item ++ rest) = some item := by
  rw [decode?, take_encode item rest shallow countable, Option.map_some]

mutual

/-- In a short encoding nothing is long. -/
theorem countable_of_length (item : Item) (small : (encode item).length < 2 ^ 32) : item.Countable := by
  match item with
  | .nil | .boolean _ | .unsigned _ | .signed _ | .float _ => trivial
  | .text bytes | .binary bytes =>
    rw [encode, List.length_append] at small
    rw [Countable]
    omega
  | .extension kind bytes =>
    rw [encode, List.length_append, List.length_cons] at small
    rw [Countable]
    omega
  | .array items =>
    rw [encode, List.length_append] at small
    have count := length_le_encodeItems items
    exact ⟨by omega, countableItems_of_length items (by omega)⟩
  | .map entries =>
    rw [encode, List.length_append] at small
    have count := length_le_encodeEntries entries
    exact ⟨by omega, countableEntries_of_length entries (by omega)⟩

theorem countableItems_of_length (items : List Item) (small : (encodeItems items).length < 2 ^ 32) :
    CountableItems items := by
  match items with
  | [] => trivial
  | item :: items =>
    rw [encodeItems, List.length_append] at small
    exact ⟨countable_of_length item (by omega), countableItems_of_length items (by omega)⟩

theorem countableEntries_of_length (entries : List (Item × Item)) (small : (encodeEntries entries).length < 2 ^ 32) :
    CountableEntries entries := by
  match entries with
  | [] => trivial
  | (key, value) :: entries =>
    simp only [encodeEntries, List.length_append] at small
    exact ⟨⟨countable_of_length key (by omega), countable_of_length value (by omega)⟩,
      countableEntries_of_length entries (by omega)⟩

end

end Item

end SpillSort
