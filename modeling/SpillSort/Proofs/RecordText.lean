import SpillSort.Proofs.Answers
import SpillSort.Proofs.TextCuts
import SpillSort.Table.RecordReader
import SpillSort.Table.RecordWriter

/-! # Records read back from their text

The text of a record is its cells between tabs and a line feed behind them. A cell that could be mistaken for more
or for less stands in quotes, and so does a record that would be an empty line.
-/

namespace SpillSort

/-! ## Characters -/

namespace Utf8

theorem front?_utf8EncodeChar (c : Char) (rest : Bytes) : front? (String.utf8EncodeChar c ++ rest) = some c := by
  have short : (String.utf8EncodeChar c).length ≤ 4 := by
    rw [String.length_utf8EncodeChar]
    exact c.utf8Size_le_four
  rw [front?, List.take_append, List.take_of_length_le short, List.toByteArray_append]
  exact ByteArray.utf8DecodeChar?_utf8EncodeChar_append

theorem decodeFrom_append (start : Nat) (c : Char) (rest : Bytes) :
    decodeFrom start (String.utf8EncodeChar c ++ rest) = (decodeFrom (start + c.utf8Size) rest).map (c :: ·) := by
  obtain ⟨first, others, bytes_eq⟩ := List.exists_cons_of_ne_nil (String.utf8EncodeChar_ne_nil (c := c))
  have front_eq := front?_utf8EncodeChar c rest
  have drop_eq : (String.utf8EncodeChar c ++ rest).drop c.utf8Size = rest :=
    List.drop_left' (String.length_utf8EncodeChar c)
  rw [bytes_eq, List.cons_append] at front_eq drop_eq ⊢
  rw [decodeFrom.eq_2, front_eq]
  dsimp only
  rw [drop_eq]

/-- Text is read from its bytes. -/
theorem decode_utf8Bytes (text : String) : decode (utf8Bytes text) = .ok text := by
  have chars (start : Nat) (list : List Char) : decodeFrom start (list.flatMap String.utf8EncodeChar) = .ok list := by
    induction list generalizing start with
    | nil => exact decodeFrom.eq_1 start
    | cons c list ih =>
      rw [List.flatMap_cons, decodeFrom_append, ih]
      rfl
  rw [decode, utf8Bytes, chars]
  exact congrArg Except.ok String.ofList_toList

theorem exists_of_front? {bytes : Bytes} {c : Char} (found : front? bytes = some c) :
    ∃ rest, bytes = String.utf8EncodeChar c ++ rest := by
  obtain ⟨others, split⟩ := ByteArray.exists_of_utf8DecodeChar?_eq_some found
  have front_eq : bytes.take 4 = String.utf8EncodeChar c ++ others.data.toList := by
    have lists := congrArg (·.data.toList) split
    simpa only [List.toList_data_toByteArray, ByteArray.data_append, Array.toList_append] using lists
  refine ⟨others.data.toList ++ bytes.drop 4, ?_⟩
  rw [← List.append_assoc, ← front_eq, List.take_append_drop]

/-- Text is read from no other bytes than its own. -/
theorem decode_eq_ok_iff {bytes : Bytes} {text : String} : decode bytes = .ok text ↔ bytes = utf8Bytes text := by
  have chars (start : Nat) (bytes : Bytes) {list : List Char} (read : decodeFrom start bytes = .ok list) :
      bytes = list.flatMap String.utf8EncodeChar := by
    fun_induction decodeFrom start bytes generalizing list with
    | case1 => cases read; rfl
    | case2 => cases read
    | case3 start first others c found ih =>
      obtain ⟨list', later, rfl⟩ := exists_of_map_eq_ok read
      obtain ⟨rest, bytes_eq⟩ := exists_of_front? found
      have rest_eq := ih later
      rw [bytes_eq, List.drop_left' (String.length_utf8EncodeChar c)] at rest_eq
      rw [bytes_eq, rest_eq, List.flatMap_cons]
  constructor
  · intro decoded
    obtain ⟨list, read, rfl⟩ := exists_of_map_eq_ok decoded
    rw [chars 0 bytes read, utf8Bytes, String.toList_ofList]
  · rintro rfl
    exact decode_utf8Bytes text

end Utf8

namespace Table

/-! ## Cells -/

/-- The text of a cell. -/
def cellText (cell : Bytes) : Bytes :=
  if RecordWriter.needsQuotes cell then quote :: ((RecordWriter.cellUnits true cell).flatten ++ [quote]) else cell

/-- An input that goes on with what ends a cell. -/
inductive Ends : List Signal → CellEnd → List Signal → Prop
  | tab (rest : List Signal) : Ends (.ok Table.tab :: rest) .tab rest
  | lineBreak (rest : List Signal) : Ends (.ok lineFeed :: rest) .lineBreak rest

variable {input rest : List Signal} {ending : CellEnd}

theorem cutPlain_of_ends (ends : Ends input ending rest) (spot : Spot) :
    ∃ spot', cutPlain spot input = ⟨[], ending, spot', rest⟩ := by
  cases ends with
  | tab => exact ⟨_, rfl⟩
  | lineBreak => exact ⟨_, rfl⟩

theorem cutPlain_append (ends : Ends input ending rest) {cell : Bytes} (plain : RecordWriter.needsQuotes cell = false)
    (spot : Spot) : ∃ spot', cutPlain spot (cell.map .ok ++ input) = ⟨cell, ending, spot', rest⟩ := by
  induction cell generalizing spot with
  | nil => exact cutPlain_of_ends ends spot
  | cons byte cell ih =>
    simp only [RecordWriter.needsQuotes, List.any_cons, Bool.or_eq_false_iff, decide_eq_false_iff_not] at plain
    obtain ⟨⟨⟨notTab, -⟩, notBreak⟩, others⟩ := plain
    obtain ⟨spot', cut⟩ := ih others (spot.past byte)
    refine ⟨spot', ?_⟩
    rw [List.map_cons, List.cons_append, cutPlain, if_neg notTab, if_neg (by simp [notBreak]), cut]
    rfl

/-- A quote ends a cell in quotes if no other quote follows it. -/
theorem cutQuoted_of_ends (ends : Ends input ending rest) (spot : Spot) :
    ∃ spot', cutQuoted spot (.ok quote :: input) = ⟨[], ending, spot', rest⟩ := by
  cases ends with
  | tab => exact ⟨_, rfl⟩
  | lineBreak => exact ⟨_, rfl⟩

theorem cutQuoted_append (ends : Ends input ending rest) (cell : Bytes) (spot : Spot) :
    ∃ spot', cutQuoted spot ((RecordWriter.cellUnits true cell).flatten.map .ok ++ .ok quote :: input) =
      ⟨cell, ending, spot', rest⟩ := by
  induction cell generalizing spot with
  | nil => exact cutQuoted_of_ends ends spot
  | cons byte cell ih =>
    by_cases doubled : byte = quote
    · subst doubled
      obtain ⟨spot', cut⟩ := ih ((spot.past quote).past quote)
      exact ⟨spot', congrArg (CutCell.cons quote) cut⟩
    · obtain ⟨spot', cut⟩ := ih (spot.past byte)
      have units : (RecordWriter.cellUnits true (byte :: cell)).flatten =
          byte :: (RecordWriter.cellUnits true cell).flatten := by
        simp [RecordWriter.cellUnits, doubled]
      refine ⟨spot', ?_⟩
      rw [units, List.map_cons, List.cons_append, cutQuoted.eq_def]
      dsimp only
      rw [if_neg doubled, cut]
      rfl

/-- A cell is cut from its text. -/
theorem cutCell_cellText (ends : Ends input ending rest) (cell : Bytes) (spot : Spot) :
    ∃ spot', cutCell spot ((cellText cell).map .ok ++ input) = ⟨cell, ending, spot', rest⟩ := by
  unfold cellText
  split
  · obtain ⟨spot', cut⟩ := cutQuoted_append ends cell (spot.past quote)
    refine ⟨spot', ?_⟩
    rw [← cut, List.map_cons, List.cons_append, cutCell, if_pos rfl, List.map_append, List.append_assoc]
    rfl
  · next plain =>
    obtain ⟨spot', cut⟩ := cutPlain_append ends (eq_false_of_ne_true plain) spot
    refine ⟨spot', ?_⟩
    rw [← cut]
    -- Only a quote at the front would matter, and there is none.
    cases cell with
    | nil =>
      cases ends with
      | tab => rfl
      | lineBreak => rfl
    | cons byte cell =>
      have notQuote : byte ≠ quote := by
        rintro rfl
        exact plain rfl
      rw [List.map_cons, List.cons_append, cutCell, if_neg notQuote]

/-! ## Records -/

/-- The cells of a record with tabs between them. -/
def lineText (cells : List Bytes) : Bytes := [tab].intercalate (cells.map cellText)

/-- The text of a record. -/
def recordText (cells : List Bytes) : Bytes :=
  (if lineText cells = [] then [quote, quote] else lineText cells) ++ [lineFeed]

theorem cutRecord_of_tab {spot spot' : Spot} {input rest : List Signal} {content : Bytes}
    (cut : cutCell spot input = ⟨content, .tab, spot', rest⟩) :
    cutRecord spot input = { cutRecord spot' rest with cells := (cutRecord spot' rest).cells.map (content :: ·) } := by
  rw [cutRecord]
  dsimp only
  split
  · next ended => cases (congrArg CutCell.ending cut).symm.trans ended
  · next ended => cases (congrArg CutCell.ending cut).symm.trans ended
  · next ended => cases (congrArg CutCell.ending cut).symm.trans ended
  · rw [cut]

theorem cutRecord_of_lineBreak {spot spot' : Spot} {input rest : List Signal} {content : Bytes}
    (cut : cutCell spot input = ⟨content, .lineBreak, spot', rest⟩) :
    cutRecord spot input = ⟨.ok [content], spot', rest⟩ := by
  rw [cutRecord]
  dsimp only
  split
  · rw [cut]
  · next ended => cases (congrArg CutCell.ending cut).symm.trans ended
  · next ended => cases (congrArg CutCell.ending cut).symm.trans ended
  · next ended => cases (congrArg CutCell.ending cut).symm.trans ended

theorem lineText_cons_cons (first second : Bytes) (others : List Bytes) :
    lineText (first :: second :: others) = cellText first ++ tab :: lineText (second :: others) := by
  simp only [lineText, List.map_cons, List.intercalate_cons_cons, List.append_assoc, List.singleton_append]

theorem lineText_cons (first : Bytes) (others : List Bytes) :
    ∃ tail, lineText (first :: others) = cellText first ++ tail := by
  cases others with
  | nil => exact ⟨[], by rw [lineText, List.map_singleton, List.intercalate_singleton, List.append_nil]⟩
  | cons second others => exact ⟨_, lineText_cons_cons first second others⟩

theorem cutRecord_lineText {cells : List Bytes} (nonempty : cells ≠ []) (spot : Spot) (rest : List Signal) :
    ∃ spot', cutRecord spot ((lineText cells).map .ok ++ .ok lineFeed :: rest) = ⟨.ok cells, spot', rest⟩ := by
  obtain ⟨first, others, rfl⟩ := List.exists_cons_of_ne_nil nonempty
  induction others generalizing first spot with
  | nil =>
    obtain ⟨spot', cut⟩ := cutCell_cellText (.lineBreak rest) first spot
    refine ⟨spot', ?_⟩
    rw [lineText, List.map_singleton, List.intercalate_singleton]
    exact cutRecord_of_lineBreak cut
  | cons second others ih =>
    obtain ⟨spot', cut⟩ :=
      cutCell_cellText (.tab ((lineText (second :: others)).map .ok ++ .ok lineFeed :: rest)) first spot
    obtain ⟨spot'', others_cut⟩ := ih spot' second (List.cons_ne_nil _ _)
    refine ⟨spot'', ?_⟩
    rw [lineText_cons_cons, List.map_append, List.map_cons, List.append_assoc, List.cons_append, cutRecord_of_tab cut,
      others_cut]
    rfl

theorem isBreak_front_cellText {cell text : Bytes} {byte : UInt8} (text_eq : cellText cell = byte :: text) :
    isBreak byte = false := by
  unfold cellText at text_eq
  split at text_eq
  · rw [← (List.cons.inj text_eq).1]
    rfl
  · next plain =>
    rw [text_eq] at plain
    simp only [RecordWriter.needsQuotes, List.any_cons, Bool.or_eq_true, not_or] at plain
    exact eq_false_of_ne_true plain.1.2

theorem isBreak_front_lineText {cells : List Bytes} {text : Bytes} {byte : UInt8}
    (text_eq : lineText cells = byte :: text) : isBreak byte = false := by
  match cells with
  | [] => cases text_eq
  | [cell] =>
    rw [lineText, List.map_singleton, List.intercalate_singleton] at text_eq
    exact isBreak_front_cellText text_eq
  | first :: second :: others =>
    rw [lineText_cons_cons] at text_eq
    cases front : cellText first with
    | nil =>
      rw [front, List.nil_append] at text_eq
      rw [← (List.cons.inj text_eq).1]
      rfl
    | cons byte' text' =>
      rw [front, List.cons_append] at text_eq
      exact (List.cons.inj text_eq).1 ▸ isBreak_front_cellText front

/-- A record is no empty line. -/
theorem recordText_eq_cons (cells : List Bytes) : ∃ byte text, recordText cells = byte :: text ∧ isBreak byte = false := by
  unfold recordText
  cases line : lineText cells with
  | nil => exact ⟨_, _, rfl, rfl⟩
  | cons byte text => exact ⟨byte, text ++ [lineFeed], rfl, isBreak_front_lineText line⟩

theorem eq_of_lineText_eq_nil {cells : List Bytes} (nonempty : cells ≠ []) (blank : lineText cells = []) :
    cells = [[]] := by
  match cells with
  | [] => exact absurd rfl nonempty
  | [cell] =>
    rw [lineText, List.map_singleton, List.intercalate_singleton, cellText] at blank
    split at blank
    · cases blank
    · rw [blank]
  | first :: second :: others =>
    rw [lineText_cons_cons] at blank
    cases (List.append_eq_nil_iff.mp blank).2

/-- A record is cut from its text. -/
theorem cutRecord_recordText {cells : List Bytes} (nonempty : cells ≠ []) (spot : Spot) (rest : List Signal) :
    ∃ spot', cutRecord spot ((recordText cells).map .ok ++ rest) = ⟨.ok cells, spot', rest⟩ := by
  unfold recordText
  split
  · next blank =>
    rw [eq_of_lineText_eq_nil nonempty blank]
    obtain ⟨spot', cut⟩ := cutQuoted_of_ends (.lineBreak rest) (spot.past quote)
    exact ⟨spot', cutRecord_of_lineBreak cut⟩
  · obtain ⟨spot', cut⟩ := cutRecord_lineText nonempty spot rest
    refine ⟨spot', ?_⟩
    rw [List.map_append, List.append_assoc]
    exact cut

end Table

/-! ## Reading -/

namespace RecordReader

open Table

theorem decodeCells_utf8Bytes (index : Nat) (texts : List String) :
    decodeCells index (texts.map utf8Bytes) = .ok texts := by
  induction texts generalizing index with
  | nil => rfl
  | cons text texts ih =>
    rw [List.map_cons, decodeCells, Utf8.decode_utf8Bytes]
    dsimp only
    rw [ih]
    rfl

theorem decodeCells_eq_ok_iff (index : Nat) {cells : List Bytes} {texts : List String} :
    decodeCells index cells = .ok texts ↔ cells = texts.map utf8Bytes := by
  constructor
  · intro decoded
    induction cells generalizing index texts with
    | nil => cases decoded; rfl
    | cons cell cells ih =>
      unfold decodeCells at decoded
      split at decoded
      · cases decoded
      · next text cell_read =>
        obtain ⟨texts', later, rfl⟩ := exists_of_map_eq_ok decoded
        rw [List.map_cons, ← ih (index + 1) later, Utf8.decode_eq_ok_iff.mp cell_read]
  · rintro rfl
    exact decodeCells_utf8Bytes index texts

/-- A record is read from the text it was written as. -/
theorem next_recordText {texts : List String} (nonempty : texts ≠ []) {reader : RecordReader} {rest : List Signal}
    (input_eq : reader.input = (recordText (texts.map utf8Bytes)).map .ok ++ rest)
    (width_eq : ∀ width, reader.width = some width → width = texts.length) :
    ∃ start reader', reader.next = (.ok (some ⟨start, texts⟩), reader') ∧ reader'.input = rest ∧
      reader'.width = some texts.length := by
  obtain ⟨byte, text, text_eq, notBreak⟩ := recordText_eq_cons (texts.map utf8Bytes)
  obtain ⟨spot', cut⟩ := cutRecord_recordText (mt List.map_eq_nil_iff.mp nonempty) reader.spot rest
  rw [text_eq, List.map_cons, List.cons_append] at input_eq cut
  have skipped : skipBreaks reader.spot reader.input = (reader.spot, reader.input) := by
    rw [input_eq, skipBreaks, if_neg (by simp [notBreak])]
  have width : reader.width.getD (texts.map utf8Bytes).length = texts.length := by
    cases known : reader.width with
    | none => exact List.length_map _
    | some width => exact width_eq width known
  have checked : check reader.start texts.length (texts.map utf8Bytes) = .ok ⟨reader.start, texts⟩ := by
    rw [check, if_pos (List.length_map _), decodeCells_utf8Bytes]
  refine ⟨reader.start, ⟨rest, spot', reader.records + 1, some texts.length⟩, ?_, rfl, rfl⟩
  rw [next, skipped, input_eq]
  dsimp only
  rw [cut]
  dsimp only
  rw [width, checked]
  rfl

theorem next_nil {reader : RecordReader} (input_eq : reader.input = []) : reader.next = (.ok none, reader.ended) := by
  rw [next, input_eq]
  rfl

end RecordReader

end SpillSort
