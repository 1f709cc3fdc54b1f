import SpillSort.Text.Split

/-! # White space

White space is the Unicode property of that name: the ASCII controls from tab to carriage return,
the space, and the spaces and separators of the other blocks.
-/

namespace SpillSort.Text

/-- The ranges of the property `White_Space`, first and last code point. -/
def blankRanges : List (Nat × Nat) :=
  [(0x09, 0x0D), (0x20, 0x20), (0x85, 0x85), (0xA0, 0xA0), (0x1680, 0x1680), (0x2000, 0x200A),
   (0x2028, 0x2029), (0x202F, 0x202F), (0x205F, 0x205F), (0x3000, 0x3000)]

/-- A character of white space. -/
def isBlank (c : Char) : Bool :=
  blankRanges.any fun (first, last) => first ≤ c.toNat && c.toNat ≤ last

/-- The text without white space at either end. -/
def trim (text : List Char) : List Char := trimBoth isBlank text

/-- The maximal parts without white space, in order. -/
def words (text : List Char) : List (List Char) :=
  (go text).filter (· ≠ [])
where
  go : List Char → List (List Char)
    | [] => [[]]
    | c :: rest =>
      if isBlank c then [] :: go rest
      else match go rest with
        | part :: parts => (c :: part) :: parts
        | [] => [[c]]

end SpillSort.Text
