import SpillSort.Proofs.RecordText

/-! # What a record writer writes

A writer to a sink that takes everything never fails but for the width of a record. What it has written is what it
has handed over and what waits in its buffer. The closing quote of a cell is written with what follows the cell.
-/

namespace SpillSort

/-! ## Sinks that take everything -/

/-- Sinks that lose nothing as long as they take what they are given. -/
class LosslessSink (ω : Type) [Sink ω] where
  /-- Whatever the sink is given it takes. -/
  Takes : ω → Prop
  /-- What the sink has been given so far. -/
  taken : ω → Bytes
  /-- What the sink has passed on. -/
  passed : ω → Bytes
  write_eq : ∀ {sink : ω} (bytes : Bytes), Takes sink →
    ∃ sink', Sink.write sink bytes = (.ok (), sink') ∧ Takes sink' ∧ taken sink' = taken sink ++ bytes
  flush_eq : ∀ {sink : ω}, Takes sink → ∃ sink', Sink.flush sink = (.ok (), sink') ∧ passed sink' = taken sink

/-- Memory without bounds takes everything, and holds nothing back. -/
instance : LosslessSink MemorySink where
  Takes sink := sink.room = none
  taken := MemorySink.content
  passed := MemorySink.content
  write_eq {sink} bytes unbounded := by
    refine ⟨{ sink with content := sink.content ++ bytes }, ?_, unbounded, rfl⟩
    simp only [Sink.write, MemorySink.write, unbounded]
  flush_eq {sink} _ := ⟨sink, rfl, rfl⟩

namespace RecordWriter

open Table LosslessSink

variable {α β ω : Type} {writer later : RecordWriter ω}

/-! ## Steps -/

/-- A step succeeds, and its answer and the writer it leaves meet a condition. -/
def Succeeds (step : RecordWriterM ω α) (writer : RecordWriter ω)
    (post : α → RecordWriter ω → Prop) : Prop :=
  ∃ answer later, step.run.run writer = (.ok answer, later) ∧ post answer later

namespace Succeeds

theorem mono {step : RecordWriterM ω α} {post weaker : α → RecordWriter ω → Prop}
    (succeeds : Succeeds step writer post) (implies : ∀ answer later, post answer later → weaker answer later) :
    Succeeds step writer weaker := by
  obtain ⟨answer, later, ran, holds⟩ := succeeds
  exact ⟨answer, later, ran, implies answer later holds⟩

theorem bind {first : RecordWriterM ω β} {rest : β → RecordWriterM ω α}
    {post : α → RecordWriter ω → Prop}
    (succeeds : Succeeds first writer fun answer later => Succeeds (rest answer) later post) :
    Succeeds (first >>= rest) writer post := by
  obtain ⟨answer, later, ran, answer', last, ran', holds⟩ := succeeds
  refine ⟨answer', last, ?_, holds⟩
  rw [ExceptT.run_bind, StateT.run_bind, ran]
  exact ran'

theorem of_pure {answer : α} {post : α → RecordWriter ω → Prop} (holds : post answer writer) :
    Succeeds (pure answer) writer post :=
  ⟨answer, writer, rfl, holds⟩

theorem of_get {post : RecordWriter ω → RecordWriter ω → Prop} (holds : post writer writer) :
    Succeeds get writer post :=
  ⟨writer, writer, rfl, holds⟩

theorem of_set {post : PUnit → RecordWriter ω → Prop} (holds : post ⟨⟩ later) :
    Succeeds (set later) writer post :=
  ⟨⟨⟩, later, rfl, holds⟩

theorem of_modify {post : PUnit → RecordWriter ω → Prop} {f : RecordWriter ω → RecordWriter ω}
    (holds : post ⟨⟩ (f writer)) : Succeeds (modify f) writer post :=
  ⟨⟨⟩, f writer, rfl, holds⟩

end Succeeds

/-! ## The buffer -/

variable [Sink ω] [LosslessSink ω]

/-- What has been written, handed over or not. -/
def written (writer : RecordWriter ω) : Bytes := taken writer.sink ++ writer.buffer.toList

/-- Some text is written, and the writer stands where it was in its record. -/
structure Emits (writer : RecordWriter ω) (text : Bytes) (later : RecordWriter ω) : Prop where
  takes : Takes later.sink
  written_eq : later.written = writer.written ++ text
  width_eq : later.width = writer.width
  cells_eq : later.cells = writer.cells
  inCell_eq : later.inCell = writer.inCell
  quoting_eq : later.quoting = writer.quoting
  blank_eq : later.blank = (writer.blank && text.isEmpty)

theorem Emits.refl (takes : Takes writer.sink) : writer.Emits [] writer :=
  ⟨takes, (List.append_nil _).symm, rfl, rfl, rfl, rfl, (Bool.and_true _).symm⟩

theorem Emits.trans {text text' : Bytes} {last : RecordWriter ω} (first : writer.Emits text later)
    (second : later.Emits text' last) : writer.Emits (text ++ text') last where
  takes := second.takes
  written_eq := by rw [second.written_eq, first.written_eq, List.append_assoc]
  width_eq := second.width_eq.trans first.width_eq
  cells_eq := second.cells_eq.trans first.cells_eq
  inCell_eq := second.inCell_eq.trans first.inCell_eq
  quoting_eq := second.quoting_eq.trans first.quoting_eq
  blank_eq := by
    rw [second.blank_eq, first.blank_eq]
    cases text <;> simp

/-- The sink takes the whole buffer. -/
theorem drain_spec (takes : Takes writer.sink) :
    Succeeds drain writer fun _ later =>
      ∃ sink, Takes sink ∧ taken sink = writer.written ∧ later = { writer with sink, buffer := #[] } := by
  obtain ⟨sink, wrote, takes', taken_eq⟩ := write_eq writer.buffer.toList takes
  unfold drain onSink
  apply Succeeds.bind
  apply Succeeds.of_get
  apply Succeeds.bind
  apply Succeeds.bind
  apply Succeeds.of_get
  dsimp only
  rw [wrote]
  apply Succeeds.bind
  apply Succeeds.of_set
  apply Succeeds.of_pure
  apply Succeeds.of_modify
  exact ⟨sink, takes', taken_eq, rfl⟩

theorem emit_spec (takes : Takes writer.sink) {unit : Bytes} (nonempty : unit ≠ []) :
    Succeeds (emit unit) writer fun _ later => writer.Emits unit later := by
  have isEmpty : unit.isEmpty = false := List.isEmpty_eq_false_iff.mpr nonempty
  unfold emit
  apply Succeeds.bind
  apply Succeeds.of_get
  dsimp only
  split
  · apply Succeeds.bind
    apply (drain_spec takes).mono
    rintro - later ⟨sink, takes', taken_eq, rfl⟩
    apply Succeeds.of_modify
    refine ⟨takes', ?_, rfl, rfl, rfl, rfl, ?_⟩
    · simp [written, taken_eq]
    · simp [isEmpty]
  · apply Succeeds.of_modify
    refine ⟨takes, ?_, rfl, rfl, rfl, rfl, ?_⟩
    · simp [written]
    · simp [isEmpty]

theorem forM_emit_spec (takes : Takes writer.sink) {units : List Bytes} (nonempty : ∀ unit ∈ units, unit ≠ []) :
    Succeeds (units.forM emit) writer fun _ later => writer.Emits units.flatten later := by
  induction units generalizing writer with
  | nil => exact Succeeds.of_pure (.refl takes)
  | cons unit units ih =>
    change Succeeds (emit unit >>= fun _ => units.forM emit) writer _
    apply Succeeds.bind
    apply (emit_spec takes (nonempty unit List.mem_cons_self)).mono
    intro _ later first
    apply (ih first.takes fun other present => nonempty other (List.mem_cons_of_mem unit present)).mono
    intro _ last others
    exact first.trans others

/-! ## Cells -/

theorem flatten_cellUnits (cell : Bytes) : (cellUnits false cell).flatten = cell := by
  induction cell with
  | nil => rfl
  | cons byte cell ih => exact congrArg (byte :: ·) ih

theorem ne_nil_of_mem_cellUnits {quoting : Bool} {cell unit : Bytes} (present : unit ∈ cellUnits quoting cell) :
    unit ≠ [] := by
  obtain ⟨byte, -, rfl⟩ := List.mem_map.mp present
  split <;> exact List.cons_ne_nil _ _

/-- The quote that is still to be written behind the cell begun. -/
def pending (writer : RecordWriter ω) : Bytes := if writer.quoting then [quote] else []

theorem closeQuotes_spec (takes : Takes writer.sink) :
    Succeeds closeQuotes writer fun _ later =>
      ∃ middle, writer.Emits writer.pending middle ∧ later = { middle with quoting := false } := by
  unfold closeQuotes
  apply Succeeds.bind
  apply Succeeds.of_get
  unfold pending
  split
  · apply Succeeds.bind
    apply (emit_spec takes (List.cons_ne_nil quote [])).mono
    intro _ middle emits
    apply Succeeds.of_modify
    exact ⟨middle, emits, rfl⟩
  · next plain =>
    apply Succeeds.of_pure
    exact ⟨writer, .refl takes, by rw [← eq_false_of_ne_true plain]⟩

theorem beginCell_spec (takes : Takes writer.sink) (outside : writer.inCell = false) (cell : Bytes) :
    Succeeds (beginCell cell) writer fun _ later =>
      ∃ middle, { writer with quoting := needsQuotes cell }.Emits (if needsQuotes cell then [quote] else []) middle ∧
        later = { middle with inCell := true } := by
  unfold beginCell
  apply Succeeds.bind
  apply Succeeds.of_get
  rw [if_pos (by simp [outside])]
  apply Succeeds.bind
  apply Succeeds.of_modify
  have takes' : Takes ({ writer with quoting := needsQuotes cell } : RecordWriter ω).sink := takes
  dsimp only
  split
  · apply Succeeds.bind
    apply (emit_spec takes' (List.cons_ne_nil quote [])).mono
    intro _ middle emits
    apply Succeeds.of_modify
    exact ⟨middle, emits, rfl⟩
  · apply Succeeds.of_modify
    exact ⟨_, .refl takes, rfl⟩

/-- A cell is written, its closing quote apart. -/
structure Puts (writer : RecordWriter ω) (text : Bytes) (later : RecordWriter ω) : Prop where
  takes : Takes later.sink
  written_eq : later.written ++ later.pending = writer.written ++ text
  width_eq : later.width = writer.width
  cells_eq : later.cells = writer.cells + 1
  blank_eq : later.blank = (writer.blank && text.isEmpty)
  plain : text = [] → later.quoting = false

theorem putUnits_spec (takes : Takes writer.sink) (outside : writer.inCell = false) (cell : Bytes) :
    Succeeds (do
      beginCell cell
      (cellUnits (← get).quoting cell).forM emit
      modify fun writer => { writer with cells := writer.cells + 1 }) writer
      fun _ later => writer.Puts (cellText cell) later := by
  apply Succeeds.bind
  apply (beginCell_spec takes outside cell).mono
  rintro - begun ⟨opened, opens, rfl⟩
  have takes' : Takes ({ opened with inCell := true } : RecordWriter ω).sink := opens.takes
  apply Succeeds.bind
  apply Succeeds.of_get
  apply Succeeds.bind
  apply (forM_emit_spec takes' fun unit => ne_nil_of_mem_cellUnits).mono
  rintro - filled fills
  apply Succeeds.of_modify
  have opened_eq : opened.quoting = needsQuotes cell := opens.quoting_eq
  have filled_eq : filled.quoting = needsQuotes cell := fills.quoting_eq.trans opened_eq
  have opened_written : opened.written = writer.written ++ _ := opens.written_eq
  have filled_written : filled.written = opened.written ++ (cellUnits opened.quoting cell).flatten := fills.written_eq
  have opened_blank : opened.blank = (writer.blank && _) := opens.blank_eq
  have filled_blank : filled.blank = (opened.blank && (cellUnits opened.quoting cell).flatten.isEmpty) := fills.blank_eq
  rw [opened_eq] at filled_written filled_blank
  have same_cells : filled.cells + 1 = writer.cells + 1 := congrArg (· + 1) (fills.cells_eq.trans opens.cells_eq)
  refine ⟨fills.takes, ?_, fills.width_eq.trans opens.width_eq, same_cells, ?_, ?_⟩
  · change filled.written ++ filled.pending = _
    rw [filled_written, opened_written, pending, filled_eq, cellText]
    split
    · next quoted => simp [quoted]
    · next plain => simp [eq_false_of_ne_true plain, flatten_cellUnits]
  · change filled.blank = _
    rw [filled_blank, opened_blank, cellText]
    split
    · simp
    · next plain => simp [eq_false_of_ne_true plain, flatten_cellUnits]
  · intro none
    refine filled_eq.trans (eq_false_of_ne_true fun quoted => ?_)
    rw [cellText, if_pos quoted] at none
    cases none

/-- Between two cells stand the closing quote of the first, if it has one, and a tab. -/
structure Parts (writer later : RecordWriter ω) : Prop where
  takes : Takes later.sink
  written_eq : later.written = writer.written ++ writer.pending ++ [tab]
  width_eq : later.width = writer.width
  cells_eq : later.cells = writer.cells
  outside : later.inCell = false
  blank_eq : later.blank = false

theorem part_spec (takes : Takes writer.sink) {rest : RecordWriterM ω Unit}
    {post : Unit → RecordWriter ω → Prop}
    (onward : ∀ between, writer.Parts between → Succeeds rest between post) :
    Succeeds (do
      closeQuotes
      emit [tab]
      modify fun writer => { writer with inCell := false }
      rest) writer post := by
  apply Succeeds.bind
  apply (closeQuotes_spec takes).mono
  rintro - closed ⟨middle, closes, rfl⟩
  have takes' : Takes ({ middle with quoting := false } : RecordWriter ω).sink := closes.takes
  apply Succeeds.bind
  apply (emit_spec takes' (List.cons_ne_nil tab [])).mono
  rintro - between emits
  apply Succeeds.bind
  apply Succeeds.of_modify
  have written_eq : between.written = writer.written ++ writer.pending ++ [tab] := by
    rw [← closes.written_eq]
    exact emits.written_eq
  have blank_eq : between.blank = (_ && false) := emits.blank_eq
  exact onward _ ⟨emits.takes, written_eq, emits.width_eq.trans closes.width_eq,
    emits.cells_eq.trans closes.cells_eq, rfl, blank_eq.trans (Bool.and_false _)⟩

/-! ## Records -/

theorem lineText_concat {cells : List Bytes} (nonempty : cells ≠ []) (cell : Bytes) :
    lineText (cells ++ [cell]) = lineText cells ++ tab :: cellText cell := by
  rw [lineText, List.map_append, List.map_singleton, intercalate_concat _ _ (mt List.map_eq_nil_iff.mp nonempty),
    List.append_assoc]
  rfl

/-- Behind some text, a record with these cells so far is being written. -/
structure Within (front : Bytes) (width : Option Nat) (cells : List Bytes) (writer : RecordWriter ω) : Prop where
  takes : Takes writer.sink
  written_eq : writer.written ++ writer.pending = front ++ lineText cells
  width_eq : writer.width = width
  cells_eq : writer.cells = cells.length
  blank_eq : writer.blank = (lineText cells).isEmpty
  outside : cells = [] → writer.inCell = false
  plain : lineText cells = [] → writer.quoting = false

variable {front : Bytes} {width : Option Nat} {cells : List Bytes}

theorem within_new {sink : ω} (takes : Takes sink) (fresh : taken sink = []) : Within [] none [] (new sink) := by
  refine ⟨takes, ?_, rfl, rfl, rfl, fun _ => rfl, fun _ => rfl⟩
  simp [written, pending, new, fresh, lineText]

theorem Within.start_eq (within : writer.Within front width []) : writer.written = front := by
  have written_eq := within.written_eq
  rw [pending, within.plain rfl] at written_eq
  simpa [lineText] using written_eq

theorem Within.first {later : RecordWriter ω} {cell : Bytes} (within : writer.Within front width [])
    (puts : writer.Puts (cellText cell) later) : later.Within front width [cell] := by
  have line_eq : lineText [cell] = cellText cell := List.intercalate_singleton
  refine ⟨puts.takes, ?_, puts.width_eq.trans within.width_eq, ?_, ?_, ?_, ?_⟩
  · rw [puts.written_eq, within.start_eq, line_eq]
  · rw [puts.cells_eq, within.cells_eq]
    rfl
  · rw [puts.blank_eq, within.blank_eq, line_eq]
    rfl
  · exact fun empty => absurd empty (List.cons_ne_nil _ _)
  · exact fun empty => puts.plain (line_eq ▸ empty)

theorem Within.further {between later : RecordWriter ω} {cell : Bytes}
    (within : writer.Within front width cells) (nonempty : cells ≠ []) (parts : writer.Parts between)
    (puts : between.Puts (cellText cell) later) : later.Within front width (cells ++ [cell]) := by
  have line_eq := lineText_concat nonempty cell
  have text : lineText (cells ++ [cell]) ≠ [] := by simp [line_eq]
  refine ⟨puts.takes, ?_, (puts.width_eq.trans parts.width_eq).trans within.width_eq, ?_, ?_, ?_, ?_⟩
  · rw [puts.written_eq, parts.written_eq, within.written_eq, line_eq]
    simp only [List.append_assoc, List.singleton_append]
  · rw [puts.cells_eq, parts.cells_eq, within.cells_eq, List.length_append, List.length_singleton]
  · rw [puts.blank_eq, parts.blank_eq, List.isEmpty_eq_false_iff.mpr text, Bool.false_and]
  · exact fun empty => absurd empty (List.append_ne_nil_of_right_ne_nil _ (List.cons_ne_nil _ _))
  · exact fun empty => absurd empty text

theorem putCell_spec (within : writer.Within front width cells) (cell : Bytes) :
    Succeeds (putCell cell) writer fun _ later => later.Within front width (cells ++ [cell]) := by
  unfold putCell
  apply Succeeds.bind
  apply Succeeds.of_get
  dsimp only
  split
  · next further =>
    have nonempty : cells ≠ [] := by
      rintro rfl
      exact absurd within.cells_eq (Nat.ne_of_gt further)
    apply part_spec within.takes
    intro between parts
    exact (putUnits_spec parts.takes parts.outside cell).mono fun _ _ puts => within.further nonempty parts puts
  · next first =>
    have empty : cells = [] := List.length_eq_zero_iff.mp (within.cells_eq ▸ Nat.eq_zero_of_not_pos first)
    subst empty
    exact (putUnits_spec within.takes (within.outside rfl) cell).mono fun _ _ puts => within.first puts

theorem forM_putCell_spec (within : writer.Within front width cells) (others : List Bytes) :
    Succeeds (others.forM putCell) writer fun _ later => later.Within front width (cells ++ others) := by
  induction others generalizing writer cells with
  | nil => exact Succeeds.of_pure (by rwa [List.append_nil])
  | cons cell others ih =>
    change Succeeds (putCell cell >>= fun _ => others.forM putCell) writer _
    apply Succeeds.bind
    apply (putCell_spec within cell).mono
    intro _ later within'
    have further := ih within'
    rwa [List.append_assoc] at further

/-- The line feed is written, and the next record can begin. -/
theorem finish_spec (takes : Takes writer.sink) (plain : writer.quoting = false) :
    Succeeds (do
      emit [lineFeed]
      modify fun writer => { writer with cells := 0, inCell := false, blank := true }) writer
      fun _ later => later.Within (writer.written ++ [lineFeed]) writer.width [] := by
  apply Succeeds.bind
  apply (emit_spec takes (List.cons_ne_nil lineFeed [])).mono
  rintro - middle emits
  apply Succeeds.of_modify
  have quoting_eq : middle.quoting = false := emits.quoting_eq.trans plain
  refine ⟨emits.takes, ?_, emits.width_eq, rfl, rfl, fun _ => rfl, fun _ => quoting_eq⟩
  change middle.written ++ (if middle.quoting then [quote] else []) = _
  rw [quoting_eq, emits.written_eq]
  rfl

/-- A record of the width of the first one can be ended. -/
theorem endRecord_spec (within : writer.Within front width cells) (fits : ∀ count, width = some count → count = cells.length) :
    Succeeds endRecord writer fun _ later => later.Within (front ++ recordText cells) (some cells.length) [] := by
  have width_eq : writer.width.getD writer.cells = cells.length := by
    rw [within.width_eq, within.cells_eq]
    cases width with
    | none => rfl
    | some count => exact fits count rfl
  unfold endRecord
  apply Succeeds.bind
  apply Succeeds.of_get
  dsimp only
  rw [width_eq]
  apply Succeeds.bind
  apply Succeeds.of_set
  rw [if_neg (not_not.mpr within.cells_eq)]
  have takes : Takes ({ writer with width := some cells.length } : RecordWriter ω).sink :=
    within.takes
  apply Succeeds.bind
  apply (closeQuotes_spec takes).mono
  rintro - closed ⟨middle, closes, rfl⟩
  have closed_written : ({ middle with quoting := false } : RecordWriter ω).written = front ++ lineText cells :=
    closes.written_eq.trans within.written_eq
  have closed_width : ({ middle with quoting := false } : RecordWriter ω).width = some cells.length := closes.width_eq
  have closed_blank : middle.blank = (writer.blank && writer.pending.isEmpty) := closes.blank_eq
  have takes' : Takes ({ middle with quoting := false } : RecordWriter ω).sink := closes.takes
  apply Succeeds.bind
  apply Succeeds.of_get
  -- Only a record without any text would be an empty line.
  by_cases blank : lineText cells = []
  · have nothing : middle.blank = true := by
      rw [closed_blank, within.blank_eq, pending, within.plain blank, blank]
      rfl
    rw [if_pos nothing]
    apply Succeeds.bind
    apply (emit_spec takes' (List.cons_ne_nil quote [quote])).mono
    rintro - quoted emits
    apply (finish_spec emits.takes emits.quoting_eq).mono
    intro _ later finished
    rw [emits.written_eq, emits.width_eq, closed_written, closed_width, blank, List.append_nil, List.append_assoc] at finished
    rwa [recordText, if_pos blank]
  · have something : ¬ middle.blank = true := by
      rw [closed_blank, within.blank_eq, List.isEmpty_eq_false_iff.mpr blank]
      simp
    rw [if_neg something]
    apply (finish_spec takes' rfl).mono
    intro _ later finished
    rw [closed_written, closed_width, List.append_assoc] at finished
    rwa [recordText, if_neg blank]

/-- A record is written as its text, whatever waits in the buffer. -/
theorem putRecord_spec (within : writer.Within front width []) (fits : ∀ count, width = some count → count = cells.length) :
    Succeeds (putRecord cells) writer fun _ later => later.Within (front ++ recordText cells) (some cells.length) [] := by
  unfold putRecord
  apply Succeeds.bind
  apply (forM_putCell_spec within cells).mono
  intro _ later within'
  exact endRecord_spec within' fits

/-- In the end the sink has passed on everything that was written. -/
theorem flush_spec (within : writer.Within front width []) :
    Succeeds flush writer fun _ later => passed later.sink = front := by
  unfold flush
  apply Succeeds.bind
  apply (drain_spec within.takes).mono
  rintro - drained ⟨sink, takes, taken_eq, rfl⟩
  obtain ⟨sink', flushed, passed_eq⟩ := flush_eq takes
  unfold onSink
  apply Succeeds.bind
  apply Succeeds.of_get
  dsimp only
  rw [flushed]
  apply Succeeds.bind
  apply Succeeds.of_set
  apply Succeeds.of_pure
  change passed sink' = front
  rw [passed_eq, taken_eq, within.start_eq]

end RecordWriter

end SpillSort
