import Mathlib.Data.List.Infix
import SpillSort.Spill.Frame

/-! # Reading frames through a buffer

What a reader gets to see of a file is what its buffer holds followed by what is left of the file. If the
file only ever becomes shorter, both are parts of the content it once had, so a request is answered with
the bytes of that content or not at all. A frame is thus read as it was written, or reported as cut off.
-/

namespace SpillSort

/-! ## Words -/

namespace Bytes

@[simp] theorem length_littleEndian (width n : Nat) : (littleEndian width n).length = width := by
  induction width generalizing n with
  | zero => rfl
  | succ width ih => simp [littleEndian, ih]

/-- A number is read back from a word as far as it fits. -/
theorem ofLittleEndian_littleEndian_mod (width n : Nat) : ofLittleEndian (littleEndian width n) = n % 256 ^ width := by
  induction width generalizing n with
  | zero => exact (Nat.mod_one n).symm
  | succ width ih =>
    have low : (UInt8.ofNat n).toNat = n % 256 := UInt8.toNat_ofNat
    rw [littleEndian, ofLittleEndian, ih, low, Nat.pow_succ', Nat.mod_mul]

/-- A number that fits a word is read back from it. -/
theorem ofLittleEndian_littleEndian {width n : Nat} (fits : n < 256 ^ width) :
    ofLittleEndian (littleEndian width n) = n := by
  rw [ofLittleEndian_littleEndian_mod, Nat.mod_eq_of_lt fits]

end Bytes

/-! ## Requests -/

namespace BufferedFile

/-- What is still to be read of a file that had this content. -/
def unread (file : BufferedFile) (whole : Bytes) : Bytes := file.ahead ++ whole.drop file.offset

@[simp] theorem unread_start (node capacity : Nat) (whole : Bytes) : (start node capacity).unread whole = whole := rfl

/-- A request within the content is answered with its bytes, unless the file has been cut. -/
theorem readExact?_cases {file : BufferedFile} (count : Nat) {disk : Disk} {whole : Bytes}
    (part : disk.content file.node <+: whole) (enough : count ≤ (file.unread whole).length) :
    (file.readExact? count disk = none ∧ disk.content file.node ≠ whole) ∨
      ∃ file' : BufferedFile, file.readExact? count disk = some ((file.unread whole).take count, file') ∧
        file'.node = file.node ∧ file'.unread whole = (file.unread whole).drop count := by
  unfold readExact?
  split
  · next buffered =>
    refine .inr ⟨{ file with ahead := file.ahead.drop count }, ?_, rfl, ?_⟩
    · rw [unread, List.take_append_of_le_length buffered]
    · simp only [unread, List.drop_append_of_le_length buffered]
  · next more =>
    dsimp only
    generalize missing_eq : count - file.ahead.length = missing
    generalize got_eq : ((disk.content file.node).drop file.offset).take (max missing file.capacity) = got
    -- What is fetched is the front of what the content has left.
    have fetched : got <+: whole.drop file.offset := by
      rw [← got_eq]
      exact (List.take_prefix _ _).trans (part.drop file.offset)
    obtain ⟨beyond, split_eq⟩ := fetched
    have count_eq : count = file.ahead.length + missing := by omega
    split
    · next short =>
      refine .inl ⟨rfl, ?_⟩
      intro whole_eq
      rw [unread, List.length_append] at enough
      rw [whole_eq] at got_eq
      have length_eq := congrArg List.length got_eq
      rw [List.length_take] at length_eq
      omega
    · next long =>
      have within : missing ≤ got.length := Nat.le_of_not_lt long
      refine .inr ⟨{ file with offset := file.offset + got.length, ahead := got.drop missing }, ?_, rfl, ?_⟩
      · rw [unread, count_eq, List.take_length_add_append, ← split_eq, List.take_append_of_le_length within]
      · simp only [unread]
        rw [count_eq, List.drop_length_add_append, ← split_eq, List.drop_append_of_le_length within]
        have behind : whole.drop (file.offset + got.length) = beyond := by
          rw [← List.drop_drop, ← split_eq, List.drop_left]
        rw [behind]

end BufferedFile

/-! ## Frames -/

namespace SpillFormat

variable {α : Type}

/-- Decoding undoes encoding. -/
def RoundTrips (format : SpillFormat α) : Prop :=
  ∀ record payload, format.encode record = .ok payload → format.decode payload = .ok record

/-- Decoding undoes encoding where the payload fits a frame. -/
def Restores (format : SpillFormat α) : Prop :=
  ∀ record payload, format.encode record = .ok payload → payload.length < 2 ^ 32 → format.decode payload = .ok record

theorem RoundTrips.restores {format : SpillFormat α} (roundTrips : format.RoundTrips) : format.Restores :=
  fun record payload stored _ => roundTrips record payload stored

/-- The payload of a record can be had and fits a frame. -/
def Fits (format : SpillFormat α) (record : α) : Prop :=
  ∃ payload, format.encode record = .ok payload ∧ payload.length < 2 ^ 32

theorem words_roundTrips : words.RoundTrips := by
  rintro n payload ⟨⟩
  have small : n.toUInt64.toNat < 256 ^ 8 := n.toUInt64.toNat_lt
  simp only [words, Bytes.length_littleEndian, if_true, Bytes.ofLittleEndian_littleEndian small, UInt64.ofNat_toNat]
  rfl

theorem words_fits (n : Int64) : words.Fits n := ⟨_, rfl, by simp⟩

/-- Stores nothing but so many zeros. -/
def zeros (length : Nat) : SpillFormat Unit := ⟨fun _ => .ok (List.replicate length 0), fun _ => .ok ()⟩

theorem zeros_roundTrips (length : Nat) : (zeros length).RoundTrips := fun _ _ _ => rfl

theorem zeros_not_fits {length : Nat} (long : 2 ^ 32 ≤ length) : ¬ (zeros length).Fits () := by
  rintro ⟨payload, stored, small⟩
  obtain rfl : List.replicate length 0 = payload := Except.ok.inj stored
  rw [List.length_replicate] at small
  exact Nat.not_le.mpr small long

/-- Refusing to store some records leaves those that are stored readable. -/
theorem RoundTrips.refusing {format : SpillFormat α} (roundTrips : format.RoundTrips) (unstorable : α → Option String) :
    (format.refusing unstorable fun _ => none).RoundTrips := by
  intro record payload stored
  simp only [SpillFormat.refusing] at stored ⊢
  split at stored
  · cases stored
  · rw [roundTrips record payload stored]

end SpillFormat

namespace Frame

variable {α : Type} {format : SpillFormat α}

theorem encode_eq_ok {record : α} {frame : Bytes} (encoded : encode format record = .ok frame) :
    ∃ payload, format.encode record = .ok payload ∧ payload.length < 2 ^ 32 ∧
      frame = Bytes.littleEndian lengthWidth payload.length ++ payload := by
  unfold encode at encoded
  split at encoded
  · cases encoded
  · next payload found =>
    split at encoded
    · next fits =>
      cases encoded
      exact ⟨payload, found, fits, rfl⟩
    · cases encoded

theorem encode_ok_of_fits {record : α} (fits : format.Fits record) : ∃ frame, encode format record = .ok frame := by
  obtain ⟨payload, found, small⟩ := fits
  refine ⟨Bytes.littleEndian lengthWidth payload.length ++ payload, ?_⟩
  simp only [encode, found, if_pos small]

theorem encodeAll_cons_eq_ok {record : α} {records : List α} {frames : Bytes}
    (encoded : encodeAll format (record :: records) = .ok frames) :
    ∃ frame rest, encode format record = .ok frame ∧ encodeAll format records = .ok rest ∧ frames = frame ++ rest := by
  unfold encodeAll at encoded
  split at encoded
  · cases encoded
  · next frame first =>
    cases tail : encodeAll format records with
    | error error =>
      rw [tail] at encoded
      cases encoded
    | ok rest =>
      rw [tail] at encoded
      cases encoded
      exact ⟨frame, rest, first, rfl, rfl⟩

/-- The frames of records that all fit can be had. -/
theorem encodeAll_ok_of_fits {records : List α} (fits : ∀ record ∈ records, format.Fits record) :
    ∃ frames, encodeAll format records = .ok frames := by
  induction records with
  | nil => exact ⟨[], rfl⟩
  | cons record records ih =>
    obtain ⟨frame, first⟩ := encode_ok_of_fits (fits record List.mem_cons_self)
    obtain ⟨rest, tail⟩ := ih fun other present => fits other (List.mem_cons_of_mem _ present)
    exact ⟨frame ++ rest, by simp only [encodeAll, first, tail, Except.map]⟩

/-- The next frame is read as it was written, unless the file has been cut. -/
theorem read_cases {file : BufferedFile} {disk : Disk} {whole payload rest : Bytes}
    (part : disk.content file.node <+: whole) (small : payload.length < 2 ^ 32)
    (front : file.unread whole = Bytes.littleEndian lengthWidth payload.length ++ payload ++ rest) :
    (read file (file.unread whole).length disk = .error .truncated ∧ disk.content file.node ≠ whole) ∨
      ∃ file' : BufferedFile, read file (file.unread whole).length disk = .ok (payload, file', rest.length) ∧
        file'.node = file.node ∧ file'.unread whole = rest := by
  have length_eq : (file.unread whole).length = lengthWidth + payload.length + rest.length := by
    rw [front]
    simp [Nat.add_assoc]
  simp only [read]
  rw [if_neg (by omega)]
  obtain ⟨gone, cut⟩ | ⟨afterWord, word, node_eq, unread_eq⟩ :=
    file.readExact?_cases lengthWidth part (by omega)
  · rw [gone]
    exact .inl ⟨rfl, cut⟩
  · rw [front, List.append_assoc, List.take_left' (Bytes.length_littleEndian ..)] at word
    rw [front, List.append_assoc, List.drop_left' (Bytes.length_littleEndian ..)] at unread_eq
    rw [word]
    have claimed : Bytes.ofLittleEndian (Bytes.littleEndian lengthWidth payload.length) = payload.length :=
      Bytes.ofLittleEndian_littleEndian (by simpa [lengthWidth] using small)
    simp only [claimed]
    rw [if_neg (by omega)]
    rw [← node_eq] at part
    obtain ⟨gone, cut⟩ | ⟨afterPayload, got, node_eq', unread_eq'⟩ :=
      afterWord.readExact?_cases payload.length part (by simp [unread_eq])
    · rw [gone]
      exact .inl ⟨rfl, node_eq ▸ cut⟩
    · rw [unread_eq, List.take_left' rfl] at got
      rw [unread_eq, List.drop_left' rfl] at unread_eq'
      rw [got]
      refine .inr ⟨afterPayload, ?_, node_eq'.trans node_eq, unread_eq'⟩
      have left_eq : (file.unread whole).length - lengthWidth - payload.length = rest.length := by omega
      simp only [left_eq]

end Frame

end SpillSort
