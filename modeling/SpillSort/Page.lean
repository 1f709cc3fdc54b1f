import SpillSort.Order

/-! # Pages

A page collects the records that are sorted in memory, up to a limit. It is full as soon as the limit
is reached, so a page is never asked to take a record it has no room for by one who looks first.
-/

namespace SpillSort

/-- The number of records of a page where none is given. -/
def standardPageSize : Nat := 1000

/-- Records collected so far, and how many the page is for. -/
structure Page (α : Type) where
  limit : Nat
  records : Array α
deriving Repr

namespace Page

variable {α : Type}

def empty (limit : Nat) : Page α := ⟨limit, #[]⟩

def size (page : Page α) : Nat := page.records.size

def isEmpty (page : Page α) : Bool := page.size = 0

/-- The limit is reached. -/
def isFull (page : Page α) : Bool := page.limit ≤ page.size

/-- The page with one more record at its end. -/
def offer (page : Page α) (record : α) : Page α :=
  { page with records := page.records.push record }

/-- The page in comparison order, ties in the order they were offered. -/
def sort (page : Page α) (compare : Comparison α) : Page α :=
  { page with records := (compare.stableSort page.records.toList).toArray }

/-- The records in their present order. -/
def toList (page : Page α) : List α := page.records.toList

end Page

end SpillSort
