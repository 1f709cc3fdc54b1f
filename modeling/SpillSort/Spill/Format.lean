import SpillSort.Bytes

/-! # Record formats of spilled runs

A format turns a record into the payload of one frame and back. Either direction may refuse. Nothing
forces the two to fit together; that they do is a property of a format.
-/

namespace SpillSort

/-- Why a payload is no record. -/
inductive PayloadFault
  /-- The bytes do not follow the format. -/
  | malformed
  /-- The format refuses the bytes for a reason of its own. -/
  | refused (reason : String)
deriving DecidableEq, Repr

def PayloadFault.message : PayloadFault → String
  | .malformed => "malformed payload"
  | .refused reason => reason

/-- How records of one kind are stored. -/
structure SpillFormat (α : Type) where
  /-- The payload of a record, or why it cannot be stored. -/
  encode : α → Except String Bytes
  /-- The record of a complete payload. -/
  decode : Bytes → Except PayloadFault α

namespace SpillFormat

/-- Integers as words of eight bytes, low byte first. -/
def words : SpillFormat Int64 where
  encode n := .ok (Bytes.littleEndian 8 n.toUInt64.toNat)
  decode bytes :=
    if bytes.length = 8 then .ok (UInt64.ofNat (Bytes.ofLittleEndian bytes)).toInt64
    else .error (.refused "8 bytes expected")

/-- A format that does not store or give back some records of another one. -/
def refusing {α : Type} (format : SpillFormat α) (unstorable unreadable : α → Option String) :
    SpillFormat α where
  encode record :=
    match unstorable record with
    | some reason => .error reason
    | none => format.encode record
  decode bytes :=
    match format.decode bytes with
    | .error fault => .error fault
    | .ok record =>
      match unreadable record with
      | some reason => .error (.refused reason)
      | none => .ok record

end SpillFormat

end SpillSort
