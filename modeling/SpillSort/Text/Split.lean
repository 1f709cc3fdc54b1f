/-! # Cutting text at separators

Text is cut as a list of characters. Each cut either says that the separator is missing or gives
the parts around it, so that the parts and the separator together are the text again.
-/

namespace SpillSort.Text

/-- The parts before and after the first `mark`. -/
def splitFirst? (mark : Char) : List Char → Option (List Char × List Char)
  | [] => none
  | c :: rest =>
    if c = mark then some ([], rest)
    else (splitFirst? mark rest).map fun (before, after) => (c :: before, after)

/-- The parts before and after the last `mark`. -/
def splitLast? (mark : Char) : List Char → Option (List Char × List Char)
  | [] => none
  | c :: rest =>
    match splitLast? mark rest with
    | some (before, after) => some (c :: before, after)
    | none => if c = mark then some ([], rest) else none

/-- The parts between the marks; one part more than there are marks. -/
def splitAll (mark : Char) : List Char → List (List Char)
  | [] => [[]]
  | c :: rest =>
    if c = mark then [] :: splitAll mark rest
    else match splitAll mark rest with
      | part :: parts => (c :: part) :: parts
      | [] => [[c]]

/-- The parts between the places where `first` is followed by `second`, found from the left. -/
def splitAtPair (first second : Char) : List Char → List (List Char)
  | [] => [[]]
  | [c] => [[c]]
  | c :: d :: rest =>
    if c = first ∧ d = second then [] :: splitAtPair first second rest
    else match splitAtPair first second (d :: rest) with
      | part :: parts => (c :: part) :: parts
      | [] => [[c]]

/-- The text without a last character, if that character is `mark`. -/
def stripLast? (mark : Char) (text : List Char) : Option (List Char) :=
  if text.getLast? = some mark then some text.dropLast else none

/-- The text without any of the given characters at its end. -/
def trimEnd (drop : Char → Bool) (text : List Char) : List Char :=
  (text.reverse.dropWhile drop).reverse

/-- The text without any of the given characters at either end. -/
def trimBoth (drop : Char → Bool) (text : List Char) : List Char :=
  trimEnd drop (text.dropWhile drop)

end SpillSort.Text
