import Mathlib.Data.List.TakeWhile
import SpillSort.Text.Blank

/-! # Joined texts cut again

A text put together from parts falls into the same parts where the marks between them do not occur in the
parts themselves.
-/

namespace SpillSort

variable {α : Type}

theorem intercalate_concat (mark part : List α) {parts : List (List α)} (nonempty : parts ≠ []) :
    mark.intercalate (parts ++ [part]) = mark.intercalate parts ++ mark ++ part := by
  induction parts with
  | nil => exact absurd rfl nonempty
  | cons first parts ih =>
    cases parts with
    | nil => simp [List.intercalate_cons_cons]
    | cons second parts =>
      have later := ih (List.cons_ne_nil _ _)
      simp only [List.cons_append, List.intercalate_cons_cons] at later ⊢
      simp only [later, List.append_assoc]

theorem mem_of_mem_intercalate {mark : List α} {parts : List (List α)} {a : α} (present : a ∈ mark.intercalate parts) :
    a ∈ mark ∨ ∃ part ∈ parts, a ∈ part := by
  induction parts with
  | nil => exact absurd present (by simp)
  | cons first parts ih =>
    cases parts with
    | nil =>
      rw [List.intercalate_singleton] at present
      exact .inr ⟨first, List.mem_cons_self, present⟩
    | cons second parts =>
      rw [List.intercalate_cons_cons, List.mem_append, List.mem_append] at present
      rcases present with (inFirst | inMark) | later
      · exact .inr ⟨first, List.mem_cons_self, inFirst⟩
      · exact .inl inMark
      · exact (ih later).imp_right fun ⟨part, among, inPart⟩ => ⟨part, List.mem_cons_of_mem _ among, inPart⟩

namespace Text

variable {mark : Char}

/-! ## Single marks -/

theorem splitFirst?_append {before : List Char} (without : mark ∉ before) (after : List Char) :
    splitFirst? mark (before ++ mark :: after) = some (before, after) := by
  induction before with
  | nil => simp [splitFirst?]
  | cons c before ih =>
    have differ : c ≠ mark := fun same => without (same ▸ List.mem_cons_self)
    have later := ih fun present => without (List.mem_cons_of_mem c present)
    simp [splitFirst?, differ, later]

theorem splitLast?_of_notMem {text : List Char} (without : mark ∉ text) : splitLast? mark text = none := by
  induction text with
  | nil => rfl
  | cons c text ih =>
    have differ : c ≠ mark := fun same => without (same ▸ List.mem_cons_self)
    have later := ih fun present => without (List.mem_cons_of_mem c present)
    simp [splitLast?, differ, later]

theorem splitLast?_append (before : List Char) {after : List Char} (without : mark ∉ after) :
    splitLast? mark (before ++ mark :: after) = some (before, after) := by
  induction before with
  | nil => simp [splitLast?, splitLast?_of_notMem without]
  | cons c before ih => simp [splitLast?, ih]

theorem notMem_of_splitLast? {text : List Char} (uncut : splitLast? mark text = none) : mark ∉ text := by
  induction text with
  | nil => exact List.not_mem_nil
  | cons c text ih =>
    simp only [splitLast?] at uncut
    split at uncut
    · cases uncut
    · next later =>
      split at uncut
      · cases uncut
      · next differ =>
        intro present
        rcases List.mem_cons.mp present with same | among
        · exact differ same.symm
        · exact ih later among

theorem eq_append_of_splitLast? {text before after : List Char} (cut : splitLast? mark text = some (before, after)) :
    text = before ++ mark :: after := by
  induction text generalizing before with
  | nil => cases cut
  | cons c text ih =>
    simp only [splitLast?] at cut
    split at cut
    · next later =>
      cases cut
      rw [ih later]
      rfl
    · split at cut
      · next same =>
        cases cut
        rw [same]
        rfl
      · cases cut

theorem stripLast?_concat (text : List Char) : stripLast? mark (text ++ [mark]) = some text := by
  simp [stripLast?]

theorem splitAll_of_notMem {text : List Char} (without : mark ∉ text) : splitAll mark text = [text] := by
  induction text with
  | nil => rfl
  | cons c text ih =>
    have differ : c ≠ mark := fun same => without (same ▸ List.mem_cons_self)
    have later := ih fun present => without (List.mem_cons_of_mem c present)
    simp [splitAll, differ, later]

theorem splitAll_append {part : List Char} (without : mark ∉ part) (rest : List Char) :
    splitAll mark (part ++ mark :: rest) = part :: splitAll mark rest := by
  induction part with
  | nil => simp [splitAll]
  | cons c part ih =>
    have differ : c ≠ mark := fun same => without (same ▸ List.mem_cons_self)
    have later := ih fun present => without (List.mem_cons_of_mem c present)
    simp [splitAll, differ, later]

/-- Parts joined by commas and spaces are cut at the commas. -/
theorem splitAll_intercalate {part : List Char} {parts : List (List Char)}
    (without : ∀ part' ∈ part :: parts, ',' ∉ part') :
    splitAll ',' ([',', ' '].intercalate (part :: parts)) = part :: parts.map (' ' :: ·) := by
  induction parts generalizing part with
  | nil =>
    rw [List.intercalate_singleton]
    exact splitAll_of_notMem (without part List.mem_cons_self)
  | cons other parts ih =>
    have later := ih fun part' present => without part' (List.mem_cons_of_mem _ present)
    rw [List.intercalate_cons_cons, List.append_assoc, List.cons_append, splitAll_append (without part List.mem_cons_self), List.map_cons]
    -- The space after the comma is the front of the next part.
    have spaced : splitAll ',' (' ' :: [',', ' '].intercalate (other :: parts)) =
        (' ' :: other) :: parts.map (' ' :: ·) := by
      rw [splitAll, if_neg (by decide), later]
    exact congrArg (part :: ·) spaced

/-! ## Pairs of marks -/

section Pairs

variable {first second : Char}

theorem splitAtPair_cons {c d : Char} (differ : c ≠ first) {rest part : List Char} {parts : List (List Char)}
    (later : splitAtPair first second (d :: rest) = part :: parts) :
    splitAtPair first second (c :: d :: rest) = (c :: part) :: parts := by
  simp [splitAtPair, differ, later]

theorem splitAtPair_append {part : List Char} (without : first ∉ part) (rest : List Char) :
    splitAtPair first second (part ++ first :: second :: rest) = part :: splitAtPair first second rest := by
  induction part with
  | nil => simp [splitAtPair]
  | cons c part ih =>
    have differ : c ≠ first := fun same => without (same ▸ List.mem_cons_self)
    have later := ih fun present => without (List.mem_cons_of_mem c present)
    cases part with
    | nil => exact splitAtPair_cons differ later
    | cons d part => exact splitAtPair_cons differ later

theorem splitAtPair_concat {part : List Char} (without : first ∉ part) :
    splitAtPair first second (part ++ [first]) = [part ++ [first]] := by
  induction part with
  | nil => rfl
  | cons c part ih =>
    have differ : c ≠ first := fun same => without (same ▸ List.mem_cons_self)
    have later := ih fun present => without (List.mem_cons_of_mem c present)
    cases part with
    | nil => exact splitAtPair_cons differ later
    | cons d part => exact splitAtPair_cons differ later

end Pairs

/-! ## Ends -/

section Ends

variable {drop : Char → Bool}

theorem dropWhile_of_head {text : List Char} (kept : ∀ c, text.head? = some c → drop c = false) :
    text.dropWhile drop = text := by
  cases text with
  | nil => rfl
  | cons c rest => exact List.dropWhile_cons_of_neg (by simp [kept c rfl])

theorem trimEnd_append {text : List Char} (kept : ∀ c, text.getLast? = some c → drop c = false) (tail : List Char)
    (dropped : ∀ c ∈ tail, drop c) : trimEnd drop (text ++ tail) = text := by
  have dropped' : ∀ c ∈ tail.reverse, drop c := fun c present => dropped c (List.mem_reverse.mp present)
  rw [trimEnd, List.reverse_append, List.dropWhile_append_of_pos dropped', dropWhile_of_head, List.reverse_reverse]
  simpa only [List.head?_reverse] using kept

end Ends

theorem trim_blank {c : Char} (blank : isBlank c) (text : List Char) : trim (c :: text) = trim text := by
  simp [trim, trimBoth, blank]

/-! ## Words -/

theorem words_blank {c : Char} (blank : isBlank c) (text : List Char) : words (c :: text) = words text := by
  simp [words, words.go, blank]

theorem words_go_word {word : List Char} (solid : ∀ c ∈ word, isBlank c = false) : words.go word = [word] := by
  induction word with
  | nil => rfl
  | cons c word ih =>
    have later := ih fun other present => solid other (List.mem_cons_of_mem c present)
    simp [words.go, solid c List.mem_cons_self, later]

theorem words_go_append {word : List Char} (solid : ∀ c ∈ word, isBlank c = false) {c : Char} (blank : isBlank c)
    (text : List Char) : words.go (word ++ c :: text) = word :: words.go text := by
  induction word with
  | nil => simp [words.go, blank]
  | cons d word ih =>
    have later := ih fun other present => solid other (List.mem_cons_of_mem d present)
    simp [words.go, solid d List.mem_cons_self, later]

/-- Two words with a space between them. -/
theorem words_pair {first second : List Char} (some_first : first ≠ []) (some_second : second ≠ [])
    (solid : ∀ c ∈ first ++ second, isBlank c = false) : words (first ++ ' ' :: second) = [first, second] := by
  have solid_first : ∀ c ∈ first, isBlank c = false := fun c present => solid c (List.mem_append_left _ present)
  have solid_second : ∀ c ∈ second, isBlank c = false := fun c present => solid c (List.mem_append_right _ present)
  rw [words, words_go_append solid_first (by decide), words_go_word solid_second]
  simp [some_first, some_second]

end Text

end SpillSort
