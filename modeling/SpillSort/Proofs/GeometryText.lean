import SpillSort.Proofs.Answers
import SpillSort.Proofs.NumberText
import SpillSort.Proofs.TextCuts
import SpillSort.Table.Geometry

/-! # Geometries read back from their text

The characters of numbers are neither white space nor commas nor parentheses, so a text is cut where it was
put together.
-/

namespace SpillSort

theorem Binary64.isBlank_of_isNumeral {c : Char} (numeral : isNumeral c) : Text.isBlank c = false := by
  simp only [isNumeral, Bool.or_eq_true, List.contains_iff_mem] at numeral
  rcases numeral with digit | other
  · have bounds : 48 ≤ c.toNat ∧ c.toNat ≤ 57 := by
      simp only [Char.isDigit, Bool.and_eq_true, decide_eq_true_eq, UInt32.le_iff_toNat_le] at digit
      exact digit
    simp only [Text.isBlank, Text.blankRanges, List.any_eq_false, List.forall_mem_cons, Bool.and_eq_true,
      decide_eq_true_eq]
    refine ⟨by omega, by omega, by omega, by omega, by omega, by omega, by omega, by omega, by omega, by omega, List.forall_mem_nil _⟩
  · have solid : ['-', '.', 'N', 'a', 'i', 'n', 'f'].all (! Text.isBlank ·) := by decide
    simpa using List.all_eq_true.mp solid c other

/-! ## What is read -/

def Coordinate.settled (position : Coordinate) : Coordinate := ⟨position.x.settled, position.y.settled⟩

namespace Geometry

open Text

/-- What is read from the text of a geometry. -/
def settled : Geometry → Geometry
  | .point position => .point position.settled
  | .lineString path => .lineString (path.map Coordinate.settled)
  | .polygon rings => .polygon (rings.map (·.map Coordinate.settled))

/-- A geometry whose text can be read: there is no path without a coordinate, and no polygon without a ring. -/
def Readable : Geometry → Prop
  | .point _ => True
  | .lineString path => path ≠ []
  | .polygon rings => rings ≠ [] ∧ ∀ ring ∈ rings, ring ≠ []

/-! ## Coordinates -/

theorem readOrdinate_write (x : Binary64) : readOrdinate x.write = .ok x.settled := by
  simp only [readOrdinate, x.read_write]
  rfl

theorem isBlank_of_mem_write {x : Binary64} {c : Char} (present : c ∈ x.write) : isBlank c = false :=
  Binary64.isBlank_of_isNumeral (Binary64.isNumeral_of_mem_write present)

theorem readCoordinate_write (position : Coordinate) :
    readCoordinate (writeCoordinate position) = .ok position.settled := by
  have solid : ∀ c ∈ position.x.write ++ position.y.write, isBlank c = false := by
    intro c present
    rcases List.mem_append.mp present with first | second
    · exact isBlank_of_mem_write first
    · exact isBlank_of_mem_write second
  simp only [readCoordinate, writeCoordinate, words_pair position.x.write_ne_nil position.y.write_ne_nil solid,
    readOrdinate_write]
  rfl

theorem readCoordinate_blank (text : List Char) : readCoordinate (' ' :: text) = readCoordinate text := by
  simp only [readCoordinate, words_blank (by decide : isBlank ' '), trim_blank (by decide : isBlank ' ')]

/-! ## Paths -/

/-- The coordinates of a path with commas between them. -/
def pathText (path : List Coordinate) : List Char := [',', ' '].intercalate (path.map writeCoordinate)

theorem writePath_eq (path : List Coordinate) : writePath path = '(' :: pathText path ++ [')'] := rfl

theorem isNumeral_or_of_mem_writeCoordinate {position : Coordinate} {c : Char} (present : c ∈ writeCoordinate position) :
    Binary64.isNumeral c ∨ c = ' ' := by
  rcases List.mem_append.mp present with first | second
  · exact .inl (Binary64.isNumeral_of_mem_write first)
  · rcases List.mem_cons.mp second with rfl | second
    · exact .inr rfl
    · exact .inl (Binary64.isNumeral_of_mem_write second)

theorem isNumeral_or_of_mem_pathText {path : List Coordinate} {c : Char} (present : c ∈ pathText path) :
    Binary64.isNumeral c ∨ c = ' ' ∨ c = ',' := by
  rcases mem_of_mem_intercalate present with inMark | ⟨part, among, inPart⟩
  · simp only [List.mem_cons, List.not_mem_nil, or_false] at inMark
    exact .inr inMark.symm
  · obtain ⟨position, -, rfl⟩ := List.mem_map.mp among
    exact (isNumeral_or_of_mem_writeCoordinate inPart).imp_right .inl

/-- No parenthesis stands in a path. -/
theorem ne_of_mem_pathText {path : List Coordinate} {c : Char} (present : c ∈ pathText path) : c ≠ '(' ∧ c ≠ ')' := by
  rcases isNumeral_or_of_mem_pathText present with numeral | rfl | rfl
  · refine ⟨?_, ?_⟩ <;> rintro rfl <;> cases numeral
  · decide
  · decide

/-- A path ends with a number. -/
theorem pathText_eq_concat {path : List Coordinate} (nonempty : path ≠ []) :
    ∃ front last, pathText path = front ++ [last] ∧ Binary64.isNumeral last := by
  obtain ⟨others, position, rfl⟩ : ∃ others position, path = others ++ [position] :=
    ⟨_, _, (List.dropLast_concat_getLast nonempty).symm⟩
  obtain ⟨digits, last, digits_eq⟩ : ∃ digits last, position.y.write = digits ++ [last] :=
    ⟨_, _, (List.dropLast_concat_getLast position.y.write_ne_nil).symm⟩
  have numeral : Binary64.isNumeral last :=
    Binary64.isNumeral_of_mem_write (digits_eq ▸ List.mem_concat_self : last ∈ position.y.write)
  obtain ⟨front, front_eq⟩ : ∃ front, pathText (others ++ [position]) = front ++ writeCoordinate position := by
    by_cases alone : others = []
    · subst alone
      exact ⟨[], List.intercalate_singleton⟩
    · have nonempty' : others.map writeCoordinate ≠ [] := mt List.map_eq_nil_iff.mp alone
      have joined := intercalate_concat [',', ' '] (writeCoordinate position) nonempty'
      exact ⟨_, (congrArg _ List.map_append).trans joined⟩
  refine ⟨front ++ position.x.write ++ ' ' :: digits, last, ?_, numeral⟩
  simp only [front_eq, writeCoordinate, digits_eq, List.append_assoc, List.cons_append]

theorem readPath_pathText {path : List Coordinate} (nonempty : path ≠ []) :
    readPath (pathText path) = .ok (path.map Coordinate.settled) := by
  obtain ⟨first, others, rfl⟩ := List.exists_cons_of_ne_nil nonempty
  have without : ∀ part ∈ (first :: others).map writeCoordinate, ',' ∉ part := by
    intro part among present
    obtain ⟨position, -, rfl⟩ := List.mem_map.mp among
    rcases isNumeral_or_of_mem_writeCoordinate present with numeral | space
    · cases numeral
    · cases space
  have later : ((others.map writeCoordinate).map (' ' :: ·)).mapM readCoordinate =
      .ok (others.map Coordinate.settled) := by
    rw [List.map_map]
    exact mapM_map_eq_ok fun position _ => (readCoordinate_blank _).trans (readCoordinate_write position)
  rw [readPath, pathText, List.map_cons, splitAll_intercalate without, List.mapM_cons, readCoordinate_write, later]
  rfl

/-! ## Rings -/

/-- What is cut out as a ring, of which the space before it and the closing parenthesis may be missing, is read as the
path in it. -/
theorem readRing_pathText (ring : List Coordinate) {lead tail : List Char} (blank : ∀ c ∈ lead, isBlank c)
    (closing : tail = [] ∨ tail = [')']) :
    readRing (lead ++ '(' :: (pathText ring ++ tail)) = readPath (pathText ring) := by
  have bare : ∀ c ∈ pathText ring, c ≠ '(' ∧ c ≠ ')' := fun c present => ne_of_mem_pathText present
  have ending : ∀ c, ('(' :: (pathText ring ++ tail)).getLast? = some c → isBlank c = false := by
    intro c isLast
    rcases closing with rfl | rfl
    · by_cases empty : ring = []
      · subst empty
        cases isLast
        decide
      · obtain ⟨front, last, text_eq, numeral⟩ := pathText_eq_concat empty
        rw [List.append_nil, text_eq, ← List.cons_append, List.getLast?_concat] at isLast
        cases isLast
        exact Binary64.isBlank_of_isNumeral numeral
    · rw [← List.cons_append, List.getLast?_concat] at isLast
      cases isLast
      decide
  have trimmed : trim (lead ++ '(' :: (pathText ring ++ tail)) = '(' :: (pathText ring ++ tail) := by
    have ended := trimEnd_append ending [] nofun
    rw [List.append_nil] at ended
    rw [trim, trimBoth, List.dropWhile_append_of_pos blank, List.dropWhile_cons_of_neg (by decide), ended]
  have opened : ('(' :: (pathText ring ++ tail)).dropWhile (· = '(') = pathText ring ++ tail := by
    rw [List.dropWhile_cons_of_pos (by decide)]
    apply dropWhile_of_head
    intro c isFirst
    rcases List.mem_append.mp (List.mem_of_head? isFirst) with inPath | inTail
    · exact decide_eq_false (bare c inPath).1
    · rcases closing with rfl | rfl
      · cases inTail
      · rw [List.mem_singleton.mp inTail]
        decide
  have closed : trimEnd (· = ')') (pathText ring ++ tail) = pathText ring := by
    refine trimEnd_append ?_ tail ?_
    · intro c isLast
      exact decide_eq_false (bare c (List.mem_of_getLast? isLast)).2
    · rcases closing with rfl | rfl
      · nofun
      · exact List.forall_mem_singleton.mpr rfl
  rw [readRing, trimmed, opened, closed]

theorem notMem_openRing {lead : List Char} (blank : ∀ c ∈ lead, isBlank c) (ring : List Coordinate) :
    ')' ∉ lead ++ '(' :: pathText ring := by
  intro present
  rcases List.mem_append.mp present with before | after
  · cases blank _ before
  · rcases List.mem_cons.mp after with paren | inPath
    · cases paren
    · exact (ne_of_mem_pathText inPath).2 rfl

/-- Rings are cut where one ends and the next begins, also where nothing is between. -/
theorem readRings (ring : List Coordinate) (rings : List (List Coordinate)) (lead : List Char)
    (blank : ∀ c ∈ lead, isBlank c) :
    (splitAtPair ')' ',' (lead ++ [',', ' '].intercalate ((ring :: rings).map writePath))).mapM readRing =
      ((ring :: rings).map pathText).mapM readPath := by
  have open_ring := notMem_openRing blank ring
  -- The comma goes with the cut and its space stays, in front of the next ring.
  induction rings generalizing ring lead with
  | nil =>
    have text_eq : lead ++ [',', ' '].intercalate ([ring].map writePath) = lead ++ '(' :: pathText ring ++ [')'] := by
      simp [writePath_eq]
    have read := readRing_pathText ring blank (.inr rfl)
    rw [text_eq, splitAtPair_concat open_ring, List.append_assoc, List.cons_append, List.mapM_cons, read, List.map_cons,
      List.mapM_cons]
    rfl
  | cons other rings ih =>
    have text_eq : lead ++ [',', ' '].intercalate ((ring :: other :: rings).map writePath) =
        lead ++ '(' :: pathText ring ++ ')' :: ',' :: ([' '] ++ [',', ' '].intercalate ((other :: rings).map writePath)) := by
      simp [writePath_eq, List.intercalate_cons_cons]
    have space : ∀ c ∈ [' '], isBlank c := List.forall_mem_singleton.mpr rfl
    have later := ih other [' '] space (notMem_openRing space other)
    have read := readRing_pathText ring blank (.inl rfl)
    rw [List.append_nil] at read
    rw [text_eq, splitAtPair_append open_ring, List.mapM_cons, read, later, List.map_cons (a := ring), List.mapM_cons]

/-! ## Geometries -/

/-- The kind is read up to the first parenthesis, and the rest up to the last one. -/
theorem split?_writeList (kind : List Char) (without : '(' ∉ kind) (solid : trim kind = kind) (parts : List (List Char)) :
    split? (kind ++ writeList parts) = some (kind, [',', ' '].intercalate parts) := by
  simp only [split?, writeList, List.cons_append, splitFirst?_append without]
  simp only [Option.bind_eq_bind, Option.bind_some, stripLast?_concat, solid]
  rfl

theorem write_point (position : Coordinate) :
    write (.point position) = "POINT".toList ++ writeList [writeCoordinate position] := rfl

theorem write_lineString (path : List Coordinate) : write (.lineString path) = "LINESTRING".toList ++ writePath path := rfl

theorem write_polygon (rings : List (List Coordinate)) :
    write (.polygon rings) = "POLYGON".toList ++ writeList (rings.map writePath) := rfl

theorem read_write_point (position : Coordinate) : read (write (.point position)) = .ok (.point position.settled) := by
  have split := split?_writeList "POINT".toList (by simp) (by decide +kernel) [writeCoordinate position]
  rw [write_point]
  simp only [Geometry.read, split, String.ofList_toList, List.intercalate_singleton, readCoordinate_write]
  rfl

theorem read_write_lineString (path : List Coordinate) :
    read (write (.lineString path)) = .lineString <$> readPath (pathText path) := by
  have split := split?_writeList "LINESTRING".toList (by simp) (by decide +kernel) (path.map writeCoordinate)
  rw [write_lineString, writePath]
  simp only [Geometry.read, split, String.ofList_toList, pathText]

theorem read_write_polygon (ring : List Coordinate) (rings : List (List Coordinate)) :
    read (write (.polygon (ring :: rings))) = .polygon <$> ((ring :: rings).map pathText).mapM readPath := by
  have split := split?_writeList "POLYGON".toList (by simp) (by decide +kernel) ((ring :: rings).map writePath)
  have rings_read := readRings ring rings [] nofun
  rw [List.nil_append] at rings_read
  rw [write_polygon]
  simp only [Geometry.read, split, String.ofList_toList, rings_read]

/-- A geometry is read from its text. -/
theorem read_write {geometry : Geometry} (readable : geometry.Readable) : read geometry.write = .ok geometry.settled := by
  cases geometry with
  | point position => exact read_write_point position
  | lineString path =>
    rw [read_write_lineString, readPath_pathText readable]
    rfl
  | polygon rings =>
    obtain ⟨some_ring, some_coordinate⟩ := readable
    obtain ⟨ring, others, rfl⟩ := List.exists_cons_of_ne_nil some_ring
    have rings_read : ((ring :: others).map pathText).mapM readPath =
        .ok ((ring :: others).map (·.map Coordinate.settled)) :=
      mapM_map_eq_ok fun ring' present => readPath_pathText (some_coordinate ring' present)
    rw [read_write_polygon, rings_read]
    rfl

/-- No text of a geometry is empty, readable or not. -/
theorem write_ne_nil (geometry : Geometry) : geometry.write ≠ [] := by
  cases geometry with
  | point position =>
    rw [write_point]
    simp
  | lineString path =>
    rw [write_lineString]
    simp
  | polygon rings =>
    rw [write_polygon]
    simp

/-! ## Geometries whose text cannot be read -/

/-- Where a coordinate is missing there is an empty text in its place. -/
theorem readPath_pathText_nil : readPath (pathText []) = .error (.notCoordinate "") := rfl

theorem read_write_of_unreadable {geometry : Geometry} (unreadable : ¬ geometry.Readable) :
    read geometry.write = .error (.notCoordinate "") := by
  cases geometry with
  | point position => exact absurd trivial unreadable
  | lineString path =>
    obtain rfl : path = [] := Classical.not_not.mp unreadable
    rw [read_write_lineString, readPath_pathText_nil]
    rfl
  | polygon rings =>
    cases rings with
    | nil => decide +kernel
    | cons ring rings =>
      -- The rings before the first empty one are read, and none of them is taken for another.
      have each : ∀ text ∈ (ring :: rings).map pathText,
          (∃ path, readPath text = .ok path) ∨ readPath text = .error (.notCoordinate "") := by
        intro text among
        obtain ⟨ring', -, rfl⟩ := List.mem_map.mp among
        by_cases empty : ring' = []
        · rw [empty]
          exact .inr readPath_pathText_nil
        · exact .inl ⟨_, readPath_pathText empty⟩
      have failing : ∃ text ∈ (ring :: rings).map pathText, readPath text = .error (.notCoordinate "") := by
        have some_empty : ∃ ring' ∈ ring :: rings, ring' = [] := by
          by_contra none_empty
          exact unreadable ⟨List.cons_ne_nil _ _, fun ring' present empty => none_empty ⟨ring', present, empty⟩⟩
        obtain ⟨ring', present, rfl⟩ := some_empty
        exact ⟨_, List.mem_map_of_mem present, readPath_pathText_nil⟩
      rw [read_write_polygon, mapM_eq_error each failing]
      rfl

/-- The text of a geometry gives the geometry back exactly if there is a coordinate in every path of it, and a ring in it
if it is a polygon. All other texts are faulty, and none stands for another geometry. What is given back is the number in
every ordinate bit for bit, and for a NaN the one that its text stands for. -/
theorem read_write_iff_readable (geometry : Geometry) :
    (read geometry.write = .ok geometry.settled ↔ geometry.Readable) ∧
      (read geometry.write = .error (.notCoordinate "") ↔ ¬ geometry.Readable) ∧
      ∀ x : Binary64, .ok x.settled = if x.isNaN then Binary64.read "NaN".toList else .ok x := by
  refine ⟨⟨fun given => ?_, read_write⟩, ⟨fun faulty readable => ?_, read_write_of_unreadable⟩, fun x => ?_⟩
  · by_contra unreadable
    cases given.symm.trans (read_write_of_unreadable unreadable)
  · cases faulty.symm.trans (read_write readable)
  · rw [Binary64.settled]
    split
    · rfl
    · rfl

end Geometry

end SpillSort
