import SpillSort.Order

/-! # The stable order

A stable sort is determined by two facts: its records are in order, and records that tie with a given
one are the same, in the same order, as before. Everything that is said of sorting here is derived from
them, so that no proof looks into a sorting algorithm.
-/

namespace SpillSort.Comparison

variable {α : Type} {compare : Comparison α}

/-- A list in comparison order. -/
def Ordered (compare : Comparison α) (records : List α) : Prop :=
  records.Pairwise fun a b => compare.le a b

/-- The records that tie with a given one. -/
def ties (compare : Comparison α) (a b : α) : Bool := compare a b == .eq

section Laws

variable [Std.TransCmp compare]

theorem le_refl (a : α) : compare.le a a := Std.ReflCmp.isLE_rfl

theorem le_trans {a b c : α} (first : compare.le a b) (second : compare.le b c) : compare.le a c :=
  Std.TransCmp.isLE_trans first second

theorem le_total (a b : α) : compare.le a b ∨ compare.le b a := by
  cases order : compare a b with
  | lt => exact .inl (by simp [le, order])
  | eq => exact .inl (by simp [le, order])
  | gt => exact .inr (by simp [le, Std.OrientedCmp.lt_of_gt order])

theorem ties_of_le {a b : α} (first : compare.le a b) (second : compare.le b a) : compare.ties a b := by
  simp [ties, Std.OrientedCmp.isLE_antisymm first second]

theorem ties_self (a : α) : compare.ties a a := ties_of_le (le_refl a) (le_refl a)

theorem ties_congr {a b : α} (tied : compare.ties a b) (c : α) : compare.ties a c = compare.ties b c := by
  have same : compare a b = .eq := by simpa [ties] using tied
  simp only [ties, Std.TransCmp.congr_left same]

omit [Std.TransCmp compare] in
theorem le_of_ties {a b : α} (tied : compare.ties a b) : compare.le a b := by
  have same : compare a b = .eq := by simpa [ties] using tied
  simp [le, same]

/-- Of two records that both tie with a third, neither stands strictly before the other. -/
theorem le_of_ties_of_ties {a b c : α} (first : compare.ties a b) (second : compare.ties a c) :
    compare.le b c := by
  rw [ties_congr first] at second
  exact le_of_ties second

end Laws

section Uniqueness

variable [Std.TransCmp compare]

private theorem head_eq {x y : α} {xs ys : List α} (ordered : compare.Ordered (x :: xs))
    (ordered' : compare.Ordered (y :: ys))
    (same : ∀ a, (x :: xs).filter (compare.ties a) = (y :: ys).filter (compare.ties a)) : x = y := by
  have present : x ∈ (y :: ys).filter (compare.ties x) := by
    rw [← same x]
    exact List.mem_filter.mpr ⟨List.mem_cons_self, ties_self x⟩
  have present' : y ∈ (x :: xs).filter (compare.ties y) := by
    rw [same y]
    exact List.mem_filter.mpr ⟨List.mem_cons_self, ties_self y⟩
  have below : compare.le y x := by
    rcases List.mem_cons.mp (List.mem_filter.mp present).1 with rfl | later
    · exact le_refl x
    · exact List.rel_of_pairwise_cons ordered' later
  have above : compare.le x y := by
    rcases List.mem_cons.mp (List.mem_filter.mp present').1 with rfl | later
    · exact le_refl y
    · exact List.rel_of_pairwise_cons ordered later
  have fronts := same x
  rw [List.filter_cons_of_pos (ties_self x), List.filter_cons_of_pos (ties_of_le above below)] at fronts
  exact (List.cons.inj fronts).1

/-- Two ordered lists that agree on every class of ties are equal. -/
theorem Ordered.eq_of_ties {xs ys : List α} (ordered : compare.Ordered xs) (ordered' : compare.Ordered ys)
    (same : ∀ a, xs.filter (compare.ties a) = ys.filter (compare.ties a)) : xs = ys := by
  induction xs generalizing ys with
  | nil =>
    cases ys with
    | nil => rfl
    | cons y ys =>
      have absurd := same y
      rw [List.filter_cons_of_pos (ties_self y)] at absurd
      cases absurd
  | cons x xs ih =>
    cases ys with
    | nil =>
      have absurd := same x
      rw [List.filter_cons_of_pos (ties_self x)] at absurd
      cases absurd
    | cons y ys =>
      obtain rfl := head_eq ordered ordered' same
      have rest : xs = ys := by
        apply ih (List.Pairwise.of_cons ordered) (List.Pairwise.of_cons ordered')
        intro a
        have both := same a
        simp only [List.filter_cons] at both
        split at both
        · exact (List.cons.inj both).2
        · exact both
      rw [rest]

end Uniqueness

section StableSort

variable [Std.TransCmp compare]

private theorem le_trans_bool (a b c : α) : compare.le a b = true → compare.le b c = true → compare.le a c = true :=
  le_trans

private theorem le_total_bool (a b : α) : (compare.le a b || compare.le b a) = true := by
  simpa using le_total a b

theorem ordered_stableSort (records : List α) : compare.Ordered (compare.stableSort records) :=
  List.pairwise_mergeSort le_trans_bool le_total_bool records

theorem perm_stableSort (compare : Comparison α) (records : List α) : (compare.stableSort records).Perm records :=
  List.mergeSort_perm records compare.le

@[simp] theorem length_stableSort (compare : Comparison α) (records : List α) :
    (compare.stableSort records).length = records.length := List.length_mergeSort records

@[simp] theorem stableSort_nil (compare : Comparison α) : compare.stableSort [] = [] := List.mergeSort_nil

omit [Std.TransCmp compare] in
theorem stableSort_eq_nil_iff {records : List α} : compare.stableSort records = [] ↔ records = [] := by
  rw [← List.length_eq_zero_iff, length_stableSort, List.length_eq_zero_iff]

/-- Sorting keeps the records that tie with a given one, in the order they had. -/
theorem filter_ties_stableSort (records : List α) (a : α) :
    (compare.stableSort records).filter (compare.ties a) = records.filter (compare.ties a) := by
  have tied : (records.filter (compare.ties a)).Pairwise fun b c => compare.le b c = true := by
    apply List.pairwise_of_forall_mem_list
    intro b first c second
    exact le_of_ties_of_ties (List.mem_filter.mp first).2 (List.mem_filter.mp second).2
  have kept := (List.sublist_mergeSort le_trans_bool le_total_bool tied List.filter_sublist).filter (compare.ties a)
  simp only [List.filter_filter, Bool.and_self] at kept
  refine (kept.eq_of_length ?_).symm
  exact ((perm_stableSort compare records).filter (compare.ties a)).length_eq.symm

/-- The stable sort is the one ordered list with the same classes of ties. -/
theorem eq_stableSort {xs records : List α} (ordered : compare.Ordered xs)
    (same : ∀ a, xs.filter (compare.ties a) = records.filter (compare.ties a)) :
    xs = compare.stableSort records := by
  apply ordered.eq_of_ties (ordered_stableSort records)
  intro a
  rw [same, filter_ties_stableSort]

/-- Sorting pieces first makes no difference to the sort of all. -/
theorem stableSort_flatten_stableSort (pieces : List (List α)) :
    compare.stableSort (pieces.map compare.stableSort).flatten = compare.stableSort pieces.flatten := by
  apply eq_stableSort (ordered_stableSort _)
  intro a
  rw [filter_ties_stableSort, List.filter_flatten, List.filter_flatten, List.map_map]
  congr 1
  exact List.map_congr_left fun piece _ => filter_ties_stableSort piece a

/-- Where only equal records tie, the order the records had makes no difference to their sort. -/
theorem stableSort_eq_of_perm {records records' : List α} (perm : records.Perm records')
    (untied : ∀ a ∈ records, ∀ b ∈ records, compare a b = .eq → a = b) :
    compare.stableSort records = compare.stableSort records' := by
  have reordered : (compare.stableSort records).Perm (compare.stableSort records') :=
    (perm_stableSort compare records).trans (perm.trans (perm_stableSort compare records').symm)
  refine reordered.eq_of_pairwise ?_ (ordered_stableSort records) (ordered_stableSort records')
  intro a b first second below above
  have among : a ∈ records := (perm_stableSort compare records).mem_iff.mp first
  have among' : b ∈ records := perm.mem_iff.mpr ((perm_stableSort compare records').mem_iff.mp second)
  exact untied a among b among' (Std.OrientedCmp.isLE_antisymm below above)

/-- A record that stands strictly before everything ahead of it and not after anything behind it comes
first in the sort. -/
theorem stableSort_append_cons {first rest : List α} {record : α}
    (ahead : ∀ other ∈ first, ¬ compare.le other record) (behind : ∀ other ∈ rest, compare.le record other) :
    compare.stableSort (first ++ record :: rest) = record :: compare.stableSort (first ++ rest) := by
  symm
  apply eq_stableSort
  · refine List.Pairwise.cons ?_ (ordered_stableSort _)
    intro other present
    rcases List.mem_append.mp ((perm_stableSort compare _).mem_iff.mp present) with early | late
    · exact (le_total record other).resolve_right (ahead other early)
    · exact behind other late
  · intro a
    rw [List.filter_append, List.filter_cons, List.filter_cons]
    split
    · next tied =>
      have none : first.filter (compare.ties a) = [] := by
        apply List.filter_eq_nil_iff.mpr
        intro other present also
        exact ahead other present (le_of_ties_of_ties also tied)
      rw [filter_ties_stableSort, List.filter_append, none, List.nil_append, List.nil_append]
    · rw [filter_ties_stableSort, List.filter_append]

end StableSort

/-! ## Comparing by a key -/

section Key

variable {β : Type} (key : β → α)

/-- Values with a record in them, compared by that record. -/
def byKey (compare : Comparison α) (key : β → α) : Comparison β := fun a b => compare (key a) (key b)

instance [Std.TransCmp compare] : Std.TransCmp (compare.byKey key) where
  eq_swap {a b} := @Std.OrientedCmp.eq_swap _ compare _ (key a) (key b)
  isLE_trans {a b c} := @Std.TransCmp.isLE_trans _ compare _ (key a) (key b) (key c)

theorem ordered_map_iff (values : List β) : compare.Ordered (values.map key) ↔ (compare.byKey key).Ordered values :=
  List.pairwise_map

/-- Values sorted by their records have the sorted records. -/
theorem map_stableSort_byKey [Std.TransCmp compare] (values : List β) :
    ((compare.byKey key).stableSort values).map key = compare.stableSort (values.map key) := by
  apply eq_stableSort ((ordered_map_iff key _).mpr (ordered_stableSort values))
  intro a
  -- A class of ties of records is one of values, but only if some value has a record in it.
  rw [List.filter_map, List.filter_map]
  cases found : values.filter (compare.ties a ∘ key) with
  | nil =>
    rw [List.filter_eq_nil_iff] at found
    rw [List.map_nil, List.map_eq_nil_iff, List.filter_eq_nil_iff]
    exact fun value present => found value ((perm_stableSort _ values).mem_iff.mp present)
  | cons first others =>
    have present : first ∈ values.filter (compare.ties a ∘ key) := found ▸ List.mem_cons_self
    have tied : compare.ties a (key first) := (List.mem_filter.mp present).2
    have same : compare.ties a ∘ key = (compare.byKey key).ties first := funext fun value => ties_congr tied (key value)
    rw [same] at found ⊢
    rw [filter_ties_stableSort, found]

end Key

/-! ## Deciding ties by a second comparison -/

section Lexicographic

variable {first second : Comparison α}

theorem ties_compareLex (a b : α) :
    (ties (compareLex first second) a b : Bool) = (first.ties a b && second.ties a b) := by
  simp only [ties, compareLex]
  cases first a b <;> rfl

variable [Std.TransCmp first]

/-- What holds in order within each class of ties holds in order of any two records that tie. -/
theorem pairwise_of_ties {related : α → α → Prop} {records : List α}
    (each : ∀ a, (records.filter (first.ties a)).Pairwise related) :
    records.Pairwise fun a b => first.ties a b → related a b := by
  induction records with
  | nil => exact .nil
  | cons record records ih =>
    refine .cons ?_ (ih fun a => (each a).sublist ((List.sublist_cons_self record records).filter _))
    intro other present tied
    have own := each record
    rw [List.filter_cons_of_pos (ties_self record)] at own
    exact (List.pairwise_cons.mp own).1 other (List.mem_filter.mpr ⟨present, tied⟩)

/-- Records that are in order by the second comparison are sorted by both together if they are sorted by the first. -/
theorem stableSort_compareLex [Std.TransCmp second] {records : List α} (ordered : second.Ordered records) :
    stableSort (compareLex first second) records = first.stableSort records := by
  symm
  apply eq_stableSort
  · have tied : (first.stableSort records).Pairwise fun a b => first.ties a b → second.le a b := by
      apply pairwise_of_ties
      intro a
      rw [filter_ties_stableSort]
      exact ordered.sublist List.filter_sublist
    refine ((ordered_stableSort records).and tied).imp ?_
    rintro a b ⟨below, decided⟩
    simp only [le, ties, compareLex] at below decided ⊢
    cases order : first a b with
    | lt => rfl
    | eq => exact decided (by rw [order]; rfl)
    | gt => rw [order] at below; cases below
  · intro a
    have both : ties (compareLex first second) a = fun b => second.ties a b && first.ties a b :=
      funext fun b => (ties_compareLex a b).trans (Bool.and_comm ..)
    rw [both, ← List.filter_filter, ← List.filter_filter, filter_ties_stableSort]

end Lexicographic

end SpillSort.Comparison
