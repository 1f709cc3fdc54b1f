/-! # Three-way comparisons and the stable order

A comparison answers how its first argument stands to its second. Ties are allowed: two records may
compare equal and still be different records, and then a stable sort keeps them in input order.
Which comparisons are consistent is `Std.TransCmp`, the total preorders.
-/

namespace SpillSort

/-- A three-way comparison of records. -/
abbrev Comparison (α : Type) := α → α → Ordering

namespace Comparison

variable {α : Type}

/-- The first argument may stand before the second. -/
def le (compare : Comparison α) (a b : α) : Bool := (compare a b).isLE

/-- The comparison in which every two records tie. -/
def tied : Comparison α := fun _ _ => .eq

/-- Records in comparison order, ties in the order they had. -/
def stableSort (compare : Comparison α) (records : List α) : List α :=
  records.mergeSort compare.le

end Comparison

end SpillSort
