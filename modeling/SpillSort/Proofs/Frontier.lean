import Mathlib.Data.List.Basic
import SpillSort.Merge
import SpillSort.Proofs.StableOrder

/-! # The frontier of a merge

Heads are ordered by record and then by input, so of records that tie the one of the earlier input is
handed out first. The lane of an input is its head, if it has one, followed by what it has not given yet.
Taking the least head takes the first record of the stable sort of all lanes, read in input order.
-/

namespace SpillSort

variable {α : Type} {compare : Comparison α}

namespace Head

/-! ## The order of heads -/

theorem before_iff (a b : Head α) :
    a.before compare b ↔ compare a.record b.record = .lt ∨ compare.ties a.record b.record ∧ a.input ≤ b.input := by
  unfold before Comparison.ties
  cases order : compare a.record b.record with
  | lt => simp
  | eq => simp [Ordering.then, Nat.isLE_compare]
  | gt => simp

theorem le_of_before {a b : Head α} (before : a.before compare b) : compare.le a.record b.record := by
  rcases (before_iff a b).mp before with less | ⟨tied, -⟩
  · simp [Comparison.le, less]
  · exact Comparison.le_of_ties tied

variable [Std.TransCmp compare]

/-- A head stands strictly before those of earlier inputs that it precedes. -/
theorem not_le_of_before {a b : Head α} (before : a.before compare b) (earlier : b.input < a.input) :
    ¬ compare.le b.record a.record := by
  rcases (before_iff a b).mp before with less | ⟨-, inputs⟩
  · exact Std.OrientedCmp.not_isLE_of_lt less
  · exact absurd inputs (Nat.not_le.mpr earlier)

theorem before_total (a b : Head α) : a.before compare b ∨ b.before compare a := by
  rw [before_iff, before_iff]
  cases order : compare a.record b.record with
  | lt => exact .inl (.inl rfl)
  | gt => exact .inr (.inl (Std.OrientedCmp.lt_of_gt order))
  | eq =>
    have back : compare b.record a.record = .eq := Std.OrientedCmp.eq_symm order
    rcases Nat.le_total a.input b.input with inputs | inputs
    · exact .inl (.inr ⟨by simp [Comparison.ties, order], inputs⟩)
    · exact .inr (.inr ⟨by simp [Comparison.ties, back], inputs⟩)

theorem before_trans {a b c : Head α} (first : a.before compare b) (second : b.before compare c) :
    a.before compare c := by
  rw [before_iff] at first second ⊢
  simp only [Comparison.ties, beq_iff_eq] at first second ⊢
  rcases first with less | ⟨tied, inputs⟩
  · rcases second with less' | ⟨tied', -⟩
    · exact .inl (Std.TransCmp.lt_trans less less')
    · exact .inl (Std.TransCmp.lt_of_lt_of_eq less tied')
  · rcases second with less' | ⟨tied', inputs'⟩
    · exact .inl (Std.TransCmp.lt_of_eq_of_lt tied less')
    · exact .inr ⟨Std.TransCmp.eq_trans tied tied', Nat.le_trans inputs inputs'⟩

/-! ## Adding a head -/

omit [Std.TransCmp compare] in
theorem perm_insert (compare : Comparison α) (head : Head α) (heads : List (Head α)) :
    (insert compare head heads).Perm (head :: heads) := by
  induction heads with
  | nil => exact .refl _
  | cons other heads ih =>
    simp only [insert]
    split
    · exact .refl _
    · exact (ih.cons other).trans (.swap head other heads)

theorem pairwise_insert {head : Head α} {heads : List (Head α)}
    (ordered : heads.Pairwise fun a b => a.before compare b) :
    (insert compare head heads).Pairwise fun a b => a.before compare b := by
  induction heads with
  | nil => exact List.pairwise_singleton _ _
  | cons other heads ih =>
    obtain ⟨least, tail⟩ := List.pairwise_cons.mp ordered
    simp only [insert]
    split
    · next first =>
      refine List.pairwise_cons.mpr ⟨?_, ordered⟩
      intro third present
      rcases List.mem_cons.mp present with rfl | later
      · exact first
      · exact before_trans first (least third later)
    · next notFirst =>
      refine List.pairwise_cons.mpr ⟨?_, ih tail⟩
      intro third present
      rcases List.mem_cons.mp ((perm_insert compare head heads).mem_iff.mp present) with rfl | later
      · exact (before_total other third).resolve_right notFirst
      · exact least third later

end Head

/-! ## Heads of an input -/

/-- The records of an input on the frontier. -/
def held (heads : List (Head α)) (index : Nat) : List α :=
  (heads.filter fun head => head.input = index).map Head.record

theorem held_cons_self (record : α) (index : Nat) (heads : List (Head α)) :
    held (⟨record, index⟩ :: heads) index = record :: held heads index := by simp [held]

theorem held_cons_of_ne {head : Head α} {index : Nat} (differ : head.input ≠ index) (heads : List (Head α)) :
    held (head :: heads) index = held heads index := by simp [held, differ]

theorem held_eq_nil {heads : List (Head α)} {index : Nat} (absent : index ∉ heads.map Head.input) :
    held heads index = [] := by
  rw [held, List.map_eq_nil_iff, List.filter_eq_nil_iff]
  intro head present same
  exact absent (List.mem_map.mpr ⟨head, present, by simpa using same⟩)

theorem held_insert_self {heads : List (Head α)} {index : Nat} (absent : index ∉ heads.map Head.input) (record : α) :
    held (Head.insert compare ⟨record, index⟩ heads) index = [record] := by
  have perm := ((Head.perm_insert compare ⟨record, index⟩ heads).filter fun head => head.input = index).map Head.record
  change (held _ _).Perm (held _ _) at perm
  rw [held_cons_self, held_eq_nil absent] at perm
  exact List.perm_singleton.mp perm

theorem held_insert_of_ne {head : Head α} {index : Nat} (differ : head.input ≠ index) (heads : List (Head α)) :
    held (Head.insert compare head heads) index = held heads index := by
  induction heads with
  | nil => exact held_cons_of_ne differ []
  | cons other heads ih =>
    simp only [Head.insert]
    split
    · exact held_cons_of_ne differ _
    · unfold held at ih ⊢
      simp only [List.filter_cons]
      split
      · simp only [List.map_cons, ih]
      · exact ih

/-- A head is all that its input has on the frontier. -/
theorem held_of_mem {heads : List (Head α)} (distinct : (heads.map Head.input).Nodup) {head : Head α}
    (present : head ∈ heads) : held heads head.input = [head.record] := by
  induction heads with
  | nil => cases present
  | cons first heads ih =>
    obtain ⟨absent, rest⟩ := List.nodup_cons.mp distinct
    rcases List.mem_cons.mp present with rfl | later
    · rw [show held (head :: heads) head.input = head.record :: held heads head.input from held_cons_self ..,
        held_eq_nil absent]
    · have differ : first.input ≠ head.input := by
        intro same
        exact absent (same ▸ List.mem_map_of_mem later)
      rw [held_cons_of_ne differ, ih rest later]

/-! ## Taking the least head -/

/-- A record that is least among the fronts of ordered lanes, the earlier lane first where they tie, is the
first of the stable sort of all lanes. -/
theorem stableSort_lanes [Std.TransCmp compare] {lanes : List (List α)} {index : Nat} {record : α} {rest : List α}
    (ordered : ∀ lane ∈ lanes, compare.Ordered lane) (lane : lanes[index]? = some (record :: rest))
    (least : ∀ other front tail, lanes[other]? = some (front :: tail) →
      Head.before compare ⟨record, index⟩ ⟨front, other⟩) :
    compare.stableSort lanes.flatten = record :: compare.stableSort (lanes.set index rest).flatten := by
  obtain ⟨bound, lane_eq⟩ := List.getElem?_eq_some_iff.mp lane
  have split_eq : lanes = lanes.take index ++ (record :: rest) :: lanes.drop (index + 1) := by
    rw [← lane_eq, List.getElem_cons_drop, List.take_append_drop]
  have set_eq : lanes.set index rest = lanes.take index ++ rest :: lanes.drop (index + 1) :=
    List.set_eq_take_append_cons_drop.trans (if_pos bound)
  have flatten_eq : lanes.flatten =
      (lanes.take index).flatten ++ record :: (rest ++ (lanes.drop (index + 1)).flatten) := by
    conv_lhs => rw [split_eq]
    simp
  have flatten_set : (lanes.set index rest).flatten =
      (lanes.take index).flatten ++ (rest ++ (lanes.drop (index + 1)).flatten) := by
    rw [set_eq]
    simp
  rw [flatten_eq, flatten_set]
  apply Comparison.stableSort_append_cons
  · intro other present
    obtain ⟨lane', place, inside⟩ := List.mem_flatten.mp present
    obtain ⟨position, before, found⟩ := List.mem_take_iff_getElem.mp place
    cases lane' with
    | nil => cases inside
    | cons front tail =>
      have first := least position front tail (List.getElem?_eq_some_iff.mpr ⟨by omega, found⟩)
      have strict := Head.not_le_of_before first (by simp only; omega)
      have member : front :: tail ∈ lanes := List.mem_of_mem_take place
      rcases List.mem_cons.mp inside with rfl | later
      · exact strict
      · intro below
        exact strict (Comparison.le_trans (List.rel_of_pairwise_cons (ordered _ member) later) below)
  · intro other present
    rcases List.mem_append.mp present with same | later
    · have member : record :: rest ∈ lanes := lane_eq ▸ List.getElem_mem bound
      exact List.rel_of_pairwise_cons (ordered _ member) same
    · obtain ⟨lane', place, inside⟩ := List.mem_flatten.mp later
      obtain ⟨position, _, found⟩ := List.mem_drop_iff_getElem.mp place
      cases lane' with
      | nil => cases inside
      | cons front tail =>
        have first := Head.le_of_before (least _ front tail (List.getElem?_eq_some_iff.mpr ⟨by omega, found⟩))
        have member : front :: tail ∈ lanes := List.mem_of_mem_drop place
        rcases List.mem_cons.mp inside with rfl | behind
        · exact first
        · exact Comparison.le_trans first (List.rel_of_pairwise_cons (ordered _ member) behind)

end SpillSort
