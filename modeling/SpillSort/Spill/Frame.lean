import SpillSort.Disk.Buffered
import SpillSort.Spill.Error

/-! # The content of a spill file

A spill file is a header of eight bytes and one frame for each record: the length of the payload as
a word of four bytes, low byte first, and the payload.
-/

namespace SpillSort.Frame

/-- The first bytes of every spill file, `FSORTRN1`. -/
def magic : Bytes := [0x46, 0x53, 0x4F, 0x52, 0x54, 0x52, 0x4E, 0x31]

/-- The bytes of a length word. -/
def lengthWidth : Nat := 4

/-- The frame of one record. -/
def encode {α : Type} (format : SpillFormat α) (record : α) : Except SpillError Bytes :=
  match format.encode record with
  | .error reason => .error (.encode reason)
  | .ok payload =>
    if payload.length < 2 ^ 32 then
      .ok (Bytes.littleEndian lengthWidth payload.length ++ payload)
    else .error (.encode s!"record of {payload.length} bytes does not fit in a frame")

/-- The frames of some records, up to the first that is refused. -/
def encodeAll {α : Type} (format : SpillFormat α) : List α → Except SpillError Bytes
  | [] => .ok []
  | record :: records =>
    match encode format record with
    | .error error => .error error
    | .ok frame => (encodeAll format records).map (frame ++ ·)

/-- The payload of the next frame. `left` counts the bytes from here to the end of the file as it was
written; a frame that claims more is not asked for. -/
def read (file : BufferedFile) (left : Nat) (disk : Disk) :
    Except RunFault (Bytes × BufferedFile × Nat) :=
  if left < lengthWidth then .error .truncated
  else
    match file.readExact? lengthWidth disk with
    | none => .error .truncated
    | some (word, file) =>
      let length := Bytes.ofLittleEndian word
      let left := left - lengthWidth
      if left < length then .error (.overrun length left)
      else
        match file.readExact? length disk with
        | none => .error .truncated
        | some (payload, file) => .ok (payload, file, left - length)

end SpillSort.Frame
