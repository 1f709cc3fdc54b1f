import SpillSort.Disk.Basic

/-! # Cutting a table into cells

Cells are separated by tabs and records by line breaks, either `\n` or `\r`; what is meant as `\r\n`
ends a record and leaves an empty line, and empty lines are skipped. A cell that begins with a quote
goes on to the next quote that is not doubled, over tabs and line breaks. What follows that quote
belongs to the cell as it stands, as does a quote inside a cell that does not begin with one.
The end of the input ends every cell.
-/

namespace SpillSort

/-- One read of an input: a byte, or a failure in its place. -/
abbrev Signal := Except FileError UInt8

/-- A place in an input: how many bytes are before it, and the number of its line. -/
structure Spot where
  byte : Nat
  line : Nat
deriving DecidableEq, Repr, Inhabited

namespace Table

def tab : UInt8 := 0x09
def lineFeed : UInt8 := 0x0A
def carriageReturn : UInt8 := 0x0D
def quote : UInt8 := 0x22

/-- A byte that ends a record. -/
def isBreak (byte : UInt8) : Bool := byte = lineFeed || byte = carriageReturn

end Table

open Table

/-- The place after a byte. -/
def Spot.past (spot : Spot) (byte : UInt8) : Spot :=
  ⟨spot.byte + 1, if byte = lineFeed then spot.line + 1 else spot.line⟩

/-- What ends a cell. -/
inductive CellEnd
  | tab
  | lineBreak
  | input
  | failure (error : FileError)
deriving DecidableEq, Repr

/-- A cell cut from an input: its content, what ended it, and where the input goes on. -/
structure CutCell where
  content : Bytes
  ending : CellEnd
  spot : Spot
  rest : List Signal
deriving Repr

/-- The cell with a byte more at its front. -/
def CutCell.cons (byte : UInt8) (cut : CutCell) : CutCell := { cut with content := byte :: cut.content }

namespace Table

/-- Cuts off a cell up to the next tab or line break. -/
def cutPlain (spot : Spot) : List Signal → CutCell
  | [] => ⟨[], .input, spot, []⟩
  | .error error :: rest => ⟨[], .failure error, spot, rest⟩
  | .ok byte :: rest =>
    if byte = tab then ⟨[], .tab, spot.past byte, rest⟩
    else if isBreak byte then ⟨[], .lineBreak, spot.past byte, rest⟩
    else (cutPlain (spot.past byte) rest).cons byte

/-- Cuts off a cell whose opening quote has been read. -/
def cutQuoted (spot : Spot) : List Signal → CutCell
  | [] => ⟨[], .input, spot, []⟩
  | .error error :: rest => ⟨[], .failure error, spot, rest⟩
  | .ok byte :: rest =>
    if byte = quote then
      match rest with
      | .ok second :: rest' =>
        if second = quote then (cutQuoted ((spot.past byte).past second) rest').cons quote
        else cutPlain (spot.past byte) (.ok second :: rest')
      | rest => cutPlain (spot.past byte) rest
    else (cutQuoted (spot.past byte) rest).cons byte

/-- Cuts off a cell. -/
def cutCell (spot : Spot) : List Signal → CutCell
  | .ok byte :: rest =>
    if byte = quote then cutQuoted (spot.past byte) rest else cutPlain spot (.ok byte :: rest)
  | input => cutPlain spot input

/-- What is left of an input after a cell is no longer than the input. -/
theorem length_cutPlain (spot : Spot) (input : List Signal) :
    (cutPlain spot input).rest.length ≤ input.length := by
  induction input generalizing spot with
  | nil => exact Nat.le_refl _
  | cons signal rest ih =>
    cases signal with
    | error error => exact Nat.le_succ _
    | ok byte =>
      unfold cutPlain
      split
      · exact Nat.le_succ _
      split
      · exact Nat.le_succ _
      · exact Nat.le_succ_of_le (ih (spot.past byte))

/-- Cutting a plain cell uses up at least one signal. -/
theorem length_cutPlain_cons (spot : Spot) (signal : Signal) (rest : List Signal) :
    (cutPlain spot (signal :: rest)).rest.length ≤ rest.length := by
  cases signal with
  | error error => exact Nat.le_refl _
  | ok byte =>
    unfold cutPlain
    split
    · exact Nat.le_refl _
    split
    · exact Nat.le_refl _
    · exact length_cutPlain (spot.past byte) rest

theorem length_cutQuoted (spot : Spot) (input : List Signal) :
    (cutQuoted spot input).rest.length ≤ input.length := by
  fun_induction cutQuoted spot input with
  | case1 => exact Nat.le_refl _
  | case2 => exact Nat.le_succ _
  | case3 spot rest ih => exact Nat.le_succ_of_le (Nat.le_succ_of_le ih)
  | case4 => exact Nat.le_succ_of_le (length_cutPlain _ _)
  | case5 => exact Nat.le_succ_of_le (length_cutPlain _ _)
  | case6 spot byte rest plain ih => exact Nat.le_succ_of_le ih

/-- Cutting a cell uses up at least one signal. -/
theorem length_cutCell (spot : Spot) (signal : Signal) (rest : List Signal) :
    (cutCell spot (signal :: rest)).rest.length ≤ rest.length := by
  cases signal with
  | error error => exact length_cutPlain_cons spot _ rest
  | ok byte =>
    rw [cutCell.eq_1]
    by_cases quoted : byte = quote
    · rw [if_pos quoted]
      exact length_cutQuoted _ rest
    · rw [if_neg quoted]
      exact length_cutPlain_cons spot _ rest

/-- A record cut from an input: its cells or the failure in them, and where the input goes on. -/
structure CutRecord where
  cells : Except FileError (List Bytes)
  spot : Spot
  rest : List Signal
deriving Repr

/-- Cuts off a record. -/
def cutRecord (spot : Spot) (input : List Signal) : CutRecord :=
  let cut := cutCell spot input
  match _ending : cut.ending with
  | .lineBreak => ⟨.ok [cut.content], cut.spot, cut.rest⟩
  | .input => ⟨.ok [cut.content], cut.spot, cut.rest⟩
  | .failure error => ⟨.error error, cut.spot, cut.rest⟩
  | .tab =>
    let others := cutRecord cut.spot cut.rest
    { others with cells := others.cells.map (cut.content :: ·) }
termination_by input.length
decreasing_by
  cases input with
  | nil => exact nomatch _ending
  | cons signal rest => exact Nat.lt_succ_of_le (length_cutCell spot signal rest)

/-- Cutting a record uses up at least one signal. -/
theorem length_cutRecord (spot : Spot) (signal : Signal) (rest : List Signal) :
    (cutRecord spot (signal :: rest)).rest.length ≤ rest.length := by
  have first := length_cutCell spot signal rest
  unfold cutRecord
  dsimp only
  split
  · exact first
  · exact first
  · exact first
  · generalize (cutCell spot (signal :: rest)).spot = spot' at *
    generalize left : (cutCell spot (signal :: rest)).rest = others at *
    cases others with
    | nil =>
      unfold cutRecord
      exact Nat.zero_le _
    | cons signal' rest' =>
      exact Nat.le_trans (Nat.le_succ_of_le (length_cutRecord spot' signal' rest')) first
termination_by rest.length
decreasing_by
  rw [List.length_cons] at first
  omega

/-- The input after the line breaks at its front. -/
def skipBreaks (spot : Spot) : List Signal → Spot × List Signal
  | [] => (spot, [])
  | .error error :: rest => (spot, .error error :: rest)
  | .ok byte :: rest =>
    if isBreak byte then skipBreaks (spot.past byte) rest else (spot, .ok byte :: rest)

theorem length_skipBreaks (spot : Spot) (input : List Signal) :
    (skipBreaks spot input).2.length ≤ input.length := by
  induction input generalizing spot with
  | nil => exact Nat.le_refl _
  | cons signal rest ih =>
    cases signal with
    | error error => exact Nat.le_refl _
    | ok byte =>
      unfold skipBreaks
      split
      · exact Nat.le_succ_of_le (ih (spot.past byte))
      · exact Nat.le_refl _

end Table

end SpillSort
