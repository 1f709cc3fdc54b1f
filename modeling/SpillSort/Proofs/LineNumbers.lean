import SpillSort.Proofs.TableAnswers

/-! # The lines on which records are malformed

What is malformed is told with a line, which is the one on which the record before it ended. The malformed record starts
on that line exactly if there is no line feed between the two: it starts further down behind empty lines, and also behind
a break of two bytes, of which the second one is left for the next record to skip.
-/

namespace SpillSort

/-! ## Places -/

/-- The place behind some bytes at the front of an input. Lines are counted from 1 on, and a line feed ends one. -/
def Spot.behind (front : Bytes) : Spot := ⟨front.length, 1 + front.count Table.lineFeed⟩

theorem Spot.past_behind (front : Bytes) (byte : UInt8) : (behind front).past byte = behind (front ++ [byte]) := by
  simp only [past, behind, List.length_append, List.length_singleton, List.count_append, List.count_singleton, beq_iff_eq,
    Spot.mk.injEq, true_and]
  split
  · omega
  · omega

theorem Spot.foldl_past_behind (front taken : Bytes) : taken.foldl past (behind front) = behind (front ++ taken) := by
  induction taken generalizing front with
  | nil => rw [List.foldl_nil, List.append_nil]
  | cons byte taken ih => rw [List.foldl_cons, past_behind, ih, List.append_assoc, List.singleton_append]

/-- Some bytes of an input were read, which led from one place to another. -/
def ReadOn (spot : Spot) (input : List Signal) (later : Spot) (rest : List Signal) : Prop :=
  ∃ taken : Bytes, input = taken.map .ok ++ rest ∧ later = taken.foldl Spot.past spot

namespace ReadOn

variable {spot middle later : Spot} {input input' rest : List Signal}

theorem refl (spot : Spot) (input : List Signal) : ReadOn spot input spot input := ⟨[], rfl, rfl⟩

theorem cons {byte : UInt8} (others : ReadOn (spot.past byte) input later rest) :
    ReadOn spot (.ok byte :: input) later rest := by
  obtain ⟨taken, rfl, rfl⟩ := others
  exact ⟨byte :: taken, rfl, rfl⟩

theorem trans (first : ReadOn spot input middle input') (second : ReadOn middle input' later rest) :
    ReadOn spot input later rest := by
  obtain ⟨taken, rfl, rfl⟩ := first
  obtain ⟨taken', rfl, rfl⟩ := second
  exact ⟨taken ++ taken', by rw [List.map_append, List.append_assoc], by rw [List.foldl_append]⟩

end ReadOn

/-- If a cell was cut off without a failure, the input was read on to its end. -/
def CutCell.Reached (spot : Spot) (input : List Signal) (cut : CutCell) : Prop :=
  (∀ error, cut.ending ≠ .failure error) → ReadOn spot input cut.spot cut.rest

theorem CutCell.Reached.behind {spot : Spot} {byte : UInt8} {input : List Signal} {cut : CutCell}
    (reached : cut.Reached (spot.past byte) input) : cut.Reached spot (.ok byte :: input) :=
  fun calm => (reached calm).cons

theorem CutCell.Reached.cons {spot : Spot} {byte : UInt8} {input : List Signal} {cut : CutCell} (content : UInt8)
    (reached : cut.Reached (spot.past byte) input) : (cut.cons content).Reached spot (.ok byte :: input) :=
  reached.behind

namespace Table

theorem cutPlain_reached (spot : Spot) (input : List Signal) : (cutPlain spot input).Reached spot input := by
  induction input generalizing spot with
  | nil => exact fun _ => .refl spot []
  | cons signal rest ih =>
    cases signal with
    | error error => exact fun calm => absurd rfl (calm error)
    | ok byte =>
      unfold cutPlain
      split
      · exact fun _ => .cons (.refl _ rest)
      · split
        · exact fun _ => .cons (.refl _ rest)
        · exact (ih (spot.past byte)).cons byte

theorem cutQuoted_reached (spot : Spot) (input : List Signal) : (cutQuoted spot input).Reached spot input := by
  fun_induction cutQuoted spot input with
  | case1 spot => exact fun _ => .refl spot []
  | case2 spot error rest => exact fun calm => absurd rfl (calm error)
  | case3 spot rest ih => exact (ih.cons quote).behind
  | case4 => exact (cutPlain_reached _ _).behind
  | case5 => exact (cutPlain_reached _ _).behind
  | case6 spot byte rest plain ih => exact ih.cons byte

theorem cutCell_reached (spot : Spot) (input : List Signal) : (cutCell spot input).Reached spot input := by
  unfold cutCell
  split
  · split
    · exact (cutQuoted_reached _ _).behind
    · exact cutPlain_reached spot _
  · exact cutPlain_reached spot input

/-- A record that has its cells was read on to its end. -/
theorem cutRecord_readOn {spot : Spot} {input : List Signal} {cells : List Bytes}
    (cut : (cutRecord spot input).cells = .ok cells) :
    ReadOn spot input (cutRecord spot input).spot (cutRecord spot input).rest := by
  fun_induction cutRecord spot input generalizing cells with
  | case1 spot input first =>
    rename_i ending
    exact cutCell_reached spot input fun error failed => by cases ending.symm.trans failed
  | case2 spot input first =>
    rename_i ending
    exact cutCell_reached spot input fun error failed => by cases ending.symm.trans failed
  | case3 => cases cut
  | case4 spot input first ending others =>
    rename_i ih
    obtain ⟨cells', others_cut, -⟩ := exists_of_map_eq_ok cut
    have reached := cutCell_reached spot input fun error failed => by cases ending.symm.trans failed
    exact reached.trans (ih others_cut)

theorem skipBreaks_spec (spot : Spot) (input : List Signal) :
    ∃ gap : Bytes, input = gap.map .ok ++ (skipBreaks spot input).2 ∧ (skipBreaks spot input).1 = gap.foldl Spot.past spot ∧
      (∀ byte ∈ gap, isBreak byte) ∧ ∀ byte, (skipBreaks spot input).2.head? = some (.ok byte) → isBreak byte = false := by
  induction input generalizing spot with
  | nil => exact ⟨[], rfl, rfl, nofun, nofun⟩
  | cons signal rest ih =>
    cases signal with
    | error error => exact ⟨[], rfl, rfl, nofun, nofun⟩
    | ok byte =>
      unfold skipBreaks
      split
      · next isBreak =>
        obtain ⟨gap, input_eq, spot_eq, breaks, front⟩ := ih (spot.past byte)
        exact ⟨byte :: gap, congrArg _ input_eq, spot_eq, List.forall_mem_cons.mpr ⟨isBreak, breaks⟩, front⟩
      · next solid =>
        refine ⟨[], rfl, rfl, nofun, ?_⟩
        rintro _ ⟨⟩
        exact eq_false_of_ne_true solid

end Table

/-! ## Where records lie -/

/-- A record lies in an input behind some bytes, up to the end of the record before it, and a gap of line breaks: what
follows these does not begin with a break, and the record is cut from it. -/
structure Row.Lies (row : Row) (input : List Signal) (before gap : Bytes) : Prop where
  ended_eq : row.ended = .behind before
  start_eq : row.start = .behind (before ++ gap)
  breaks : ∀ byte ∈ gap, Table.isBreak byte
  cut : ∃ rest, input = (before ++ gap).map .ok ++ rest ∧ row.cells = (Table.cutRecord row.start rest).cells ∧
    ∀ byte, rest.head? = some (.ok byte) → Table.isBreak byte = false

/-- Every record lies somewhere behind what is in front of an input. -/
theorem Table.exists_lies_of_mem {front : Bytes} {input : List Signal} {row : Row}
    (present : row ∈ rowsFrom (.behind front) input) : ∃ before gap, row.Lies (front.map .ok ++ input) before gap := by
  generalize spot_eq : Spot.behind front = spot at present
  fun_induction rowsFrom spot input generalizing front with
  | case1 => cases present
  | case2 spot input start signal rest left cut =>
    rename_i ih
    obtain ⟨gap, input_eq, start_eq, breaks, solid⟩ := skipBreaks_spec spot input
    rw [left] at input_eq start_eq solid
    subst spot_eq
    rw [Spot.foldl_past_behind] at start_eq
    have whole_eq : front.map .ok ++ input = (front ++ gap).map .ok ++ signal :: rest := by
      rw [input_eq, List.map_append, List.append_assoc]
    rcases List.mem_cons.mp present with rfl | among
    · exact ⟨front, gap, rfl, start_eq, breaks, signal :: rest, whole_eq, rfl, solid⟩
    · cases cells_eq : cut.cells with
      | error error =>
        rw [cells_eq] at among
        cases among
      | ok cells =>
        rw [cells_eq] at among
        obtain ⟨taken, rest_eq, spot_eq⟩ := cutRecord_readOn cells_eq
        dsimp only at start_eq
        rw [start_eq, Spot.foldl_past_behind, ← start_eq] at spot_eq
        have lies := ih spot_eq.symm among
        rwa [List.map_append, List.append_assoc, ← rest_eq, ← whole_eq] at lies

namespace RecordReader

/-- A byte order mark in front of an input is read over. -/
theorem afterMark?_eq_some {bytes rest : Bytes} (marked : afterMark? bytes = some rest) :
    bytes = [0xEF, 0xBB, 0xBF] ++ rest := by
  unfold afterMark? at marked
  split at marked
  · cases marked
    rfl
  · cases marked

theorem signals_ok (bytes : Bytes) (others : List (Except FileError Bytes)) :
    signals (.ok bytes :: others) = bytes.map .ok ++ signals others := rfl

/-- What a new reader has before it, with the mark in front, is all that arrives. -/
theorem ofPieces_spec (pieces : List (Except FileError Bytes)) (some_input : (ofPieces pieces).input ≠ []) :
    ∃ front : Bytes, signals pieces = front.map .ok ++ (ofPieces pieces).input ∧
      (ofPieces pieces).spot = .behind front := by
  unfold ofPieces at some_input ⊢
  split at some_input
  · next bytes others =>
    split at some_input
    · exact absurd rfl some_input
    · next rest marked =>
      refine ⟨[0xEF, 0xBB, 0xBF], ?_, rfl⟩
      rw [signals_ok, afterMark?_eq_some marked, List.map_append, List.append_assoc]
      rfl
    · exact ⟨[], rfl, rfl⟩
  · exact ⟨[], rfl, rfl⟩

theorem exists_lies_of_mem {pieces : List (Except FileError Bytes)} {row : Row} (present : row ∈ (ofPieces pieces).rows) :
    ∃ before gap, row.Lies (signals pieces) before gap := by
  have some_input : (ofPieces pieces).input ≠ [] := by
    intro empty
    rw [rows, empty, Table.rowsFrom_of_blank rfl] at present
    cases present
  obtain ⟨front, signals_eq, spot_eq⟩ := ofPieces_spec pieces some_input
  rw [rows, spot_eq] at present
  rw [signals_eq]
  exact Table.exists_lies_of_mem present

end RecordReader

/-! ## The lines that are told -/

namespace TableReader

/-- A record is malformed on the line on which the record before it ended. It starts as many lines further down as there
are line feeds among the breaks between the two, and so on the line that is told exactly if there is none. -/
theorem malformed_line {name : String} {pieces : List (Except FileError Bytes)} {reader : TableReader} {host later : Host}
    (opened : (new name (.ofPieces pieces)).run host = (.ok reader, later)) {calls line : Nat} {fault : TableFault}
    (told : (reader.after calls).next.1 = .error (.malformed line fault)) :
    ∃ header rows row cells before gap, (RecordReader.ofPieces pieces).rows = header :: rows ∧
      rows[calls]? = some row ∧ row.cells = .ok cells ∧ ¬ reader.schema.Admits cells ∧
      row.Lies (RecordReader.signals pieces) before gap ∧ line = 1 + before.count Table.lineFeed ∧
      row.start.line = line + gap.count Table.lineFeed ∧ (line = row.start.line ↔ Table.lineFeed ∉ gap) := by
  obtain ⟨header, rows, titles, rows_eq, -, -, awaits⟩ :=
    exists_header_of_readTitles (width_ofPieces pieces) (readTitles_of_new opened)
  have answers := awaits.answers calls
  generalize row_eq : rows[calls]? = row? at answers
  rw [told] at answers
  cases answers with
  | @malformed row cells fault read refused =>
    have present : row ∈ (RecordReader.ofPieces pieces).rows :=
      rows_eq ▸ List.mem_cons_of_mem header (List.mem_of_getElem? row_eq)
    obtain ⟨before, gap, lies⟩ := RecordReader.exists_lies_of_mem present
    have start_line : row.start.line = row.ended.line + gap.count Table.lineFeed := by
      simp only [lies.start_eq, lies.ended_eq, Spot.behind, List.count_append]
      omega
    have line_iff : row.ended.line = row.start.line ↔ Table.lineFeed ∉ gap := by
      rw [start_line, ← List.count_eq_zero]
      omega
    exact ⟨header, rows, row, cells, before, gap, rows_eq, row_eq, read, refused, lies,
      congrArg Spot.line lies.ended_eq, start_line, line_iff⟩

/-- A table in which two empty lines stand in front of a record with a cell over two lines. -/
def gappedTable : Bytes := utf8Bytes "id\tv:integer\na\t1\n\n\n\"b\nc\"\tx\n"

/-- The record that is told with line 3 starts on line 5. -/
theorem malformed_line_gapped :
    ∃ reader later fault, (new "t" (.ofPieces [.ok gappedTable])).run default = (.ok reader, later) ∧
      (reader.after 1).next.1 = .error (.malformed 3 fault) ∧
      ∃ (row : Row) (before gap : Bytes), row.Lies (RecordReader.signals [.ok gappedTable]) before gap ∧
        3 = 1 + before.count Table.lineFeed ∧ row.start.line = 3 + gap.count Table.lineFeed ∧
        (3 = row.start.line ↔ Table.lineFeed ∉ gap) ∧ row.start.line = 5 := by
  have answers : ((new "t" (.ofPieces [.ok gappedTable])).run default).1.toOption.map
      (fun reader => (reader.after 1).next.1) = some (.error (.malformed 3 (.attribute "v" (.integer "x" .badDigit)))) := by
    decide +kernel
  have starts : (RecordReader.ofPieces [.ok gappedTable]).rows.tail[1]?.map (·.start.line) = some 5 := by decide +kernel
  obtain ⟨reader, later, opened, told⟩ := exists_of_map_eq_some answers
  obtain ⟨header, rows, row, _, before, gap, rows_eq, row_eq, _, _, lies, line_eq, start_eq, line_iff⟩ :=
    malformed_line opened told
  rw [rows_eq, List.tail_cons, row_eq] at starts
  exact ⟨reader, later, _, opened, told, row, before, gap, lies, line_eq, start_eq, line_iff, Option.some.inj starts⟩

/-- A table with breaks of two bytes. -/
def crlfTable : Bytes := utf8Bytes "id\tv:integer\r\nr1\tx\r\n"

/-- The record is malformed on line 2, and line 1 is told: the line feed that ends line 1 is skipped as a break of its
own, after the place of the record was taken. -/
theorem malformed_line_crlf :
    ∃ reader later fault header row, (new "t" (.ofPieces [.ok crlfTable])).run default = (.ok reader, later) ∧
      (RecordReader.ofPieces [.ok crlfTable]).rows = [header, row] ∧
      row.Lies (RecordReader.signals [.ok crlfTable]) (utf8Bytes "id\tv:integer\r") (utf8Bytes "\n") ∧
      row.start.line = 2 ∧ (reader.after 0).next.1 = .error (.malformed 1 fault) := by
  have answers : ((new "t" (.ofPieces [.ok crlfTable])).run default).1.toOption.map
      (fun reader => (reader.after 0).next.1) = some (.error (.malformed 1 (.attribute "v" (.integer "x" .badDigit)))) := by
    decide +kernel
  have rows_eq : (RecordReader.ofPieces [.ok crlfTable]).rows =
      [⟨⟨0, 1⟩, ⟨0, 1⟩, .ok [utf8Bytes "id", utf8Bytes "v:integer"]⟩,
        ⟨⟨13, 1⟩, ⟨14, 2⟩, .ok [utf8Bytes "r1", utf8Bytes "x"]⟩] := by decide +kernel
  have lies : Row.Lies ⟨⟨13, 1⟩, ⟨14, 2⟩, .ok [utf8Bytes "r1", utf8Bytes "x"]⟩ (RecordReader.signals [.ok crlfTable])
      (utf8Bytes "id\tv:integer\r") (utf8Bytes "\n") := by
    refine ⟨by decide +kernel, by decide +kernel, by decide +kernel, (utf8Bytes "r1\tx\r\n").map .ok, ?_, ?_, ?_⟩
    · decide +kernel
    · decide +kernel
    · rintro _ ⟨⟩
      rfl
  obtain ⟨reader, later, opened, told⟩ := exists_of_map_eq_some answers
  exact ⟨reader, later, _, _, _, opened, rows_eq, lies, rfl, told⟩

end TableReader

end SpillSort
