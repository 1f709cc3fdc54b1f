import SpillSort.MessagePack.Layout
import SpillSort.Proofs.ItemReading
import SpillSort.Proofs.RecordText

/-! # Reading records back

Every layout that features are made of reads the items it writes as the records they were made of, if only it may
go deep enough. Features are not deep, so their format gives back what it has stored, as far as the payload can be
counted by a word of four bytes.
-/

namespace SpillSort.Layout

variable {α β : Type}

/-- Items of a layout have at most so many levels, and are read back where there may be so many. A choice with a
content is a level of the item, but none to the reading. -/
structure Reads (layout : Layout α) (height levels : Nat) : Prop where
  height_le : ∀ record, (layout.toItem record).height ≤ height
  ofItem? : ∀ record depth, levels ≤ depth → layout.ofItem? depth (layout.toItem record) = some record

theorem Reads.mono {layout : Layout α} {height height' levels levels' : Nat} (reads : layout.Reads height levels)
    (higher : height ≤ height') (deeper : levels ≤ levels') : layout.Reads height' levels' where
  height_le record := Nat.le_trans (reads.height_le record) higher
  ofItem? record depth enough := reads.ofItem? record depth (Nat.le_trans deeper enough)

/-! ## Plain values -/

/-- A number that is not below zero is the same with and without a sign. -/
theorem toNat_toUInt64_lt {n : Int64} (positive : ¬ n < 0) : n.toUInt64.toNat < 2 ^ 63 := by
  rw [Int64.lt_iff_toInt_lt, Int64.toInt_zero] at positive
  have signed_eq : n.toInt = n.toUInt64.toBitVec.toInt := rfl
  rw [signed_eq, BitVec.toInt_eq_toNat_cond] at positive
  have bound := n.toUInt64.toBitVec.isLt
  change n.toUInt64.toBitVec.toNat < 2 ^ 63
  split at positive <;> omega

theorem int64_reads : int64.Reads 0 0 where
  height_le n := by
    simp only [int64]
    split <;> exact Nat.le_refl _
  ofItem? n _ _ := by
    by_cases negative : n < 0
    · simp only [int64, if_pos negative]
    · simp only [int64, if_neg negative]
      rw [if_pos (toNat_toUInt64_lt negative)]
      rfl

theorem boolean_reads : boolean.Reads 0 0 := ⟨fun _ => Nat.le_refl _, fun _ _ _ => rfl⟩

theorem float_reads : float.Reads 0 0 := ⟨fun _ => Nat.le_refl _, fun _ _ _ => rfl⟩

theorem text_reads : text.Reads 0 0 where
  height_le _ := Nat.le_refl _
  ofItem? s _ _ := by
    simp only [text, Utf8.decode_utf8Bytes]
    rfl

/-! ## Lists -/

theorem heightOfItems_le {items : List Item} {height : Nat} (bounded : ∀ item ∈ items, item.height ≤ height) :
    Item.heightOfItems items ≤ height := by
  induction items with
  | nil => exact Nat.zero_le _
  | cons item items ih =>
    obtain ⟨first, rest⟩ := List.forall_mem_cons.mp bounded
    exact Nat.max_le.mpr ⟨first, ih rest⟩

theorem Reads.list {layout : Layout α} {height levels : Nat} (reads : layout.Reads height levels) :
    layout.list.Reads (height + 1) (levels + 1) where
  height_le records := by
    refine Nat.succ_le_succ (heightOfItems_le ?_)
    intro item present
    obtain ⟨record, -, rfl⟩ := List.mem_map.mp present
    exact reads.height_le record
  ofItem? records depth enough := by
    obtain ⟨depth, rfl⟩ : ∃ inner, depth = inner + 1 := ⟨depth - 1, by omega⟩
    change (records.map layout.toItem).mapM (layout.ofItem? depth) = some records
    induction records with
    | nil => rfl
    | cons record records ih =>
      rw [List.map_cons, List.mapM_cons, reads.ofItem? record depth (Nat.le_of_succ_le_succ enough), ih]
      rfl

/-! ## Structures and choices -/

theorem structureOfItem?_array {γ : Type} {first : Layout α} {second : Layout β} {height levels : Nat}
    (reads : first.Reads height levels) (reads' : second.Reads height levels) (firstName secondName : String)
    (make : α → β → γ) (a : α) (b : β) {depth : Nat} (enough : levels + 1 ≤ depth) :
    structureOfItem? firstName secondName first second make depth (.array [first.toItem a, second.toItem b]) =
      some (make a b) := by
  obtain ⟨depth, rfl⟩ : ∃ inner, depth = inner + 1 := ⟨depth - 1, by omega⟩
  have deep : levels ≤ depth := Nat.le_of_succ_le_succ enough
  simp only [structureOfItem?, twoFields?]
  simp [reads.ofItem? a depth deep, reads'.ofItem? b depth deep]

theorem height_array_pair {a b : Item} {height : Nat} (first : a.height ≤ height) (second : b.height ≤ height) :
    (Item.array [a, b]).height ≤ height + 1 :=
  Nat.succ_le_succ (Nat.max_le.mpr ⟨first, Nat.max_le.mpr ⟨second, Nat.zero_le _⟩⟩)

theorem height_choose {name : String} {content : Item} {height : Nat} (bounded : content.height ≤ height) :
    (choose name content).height ≤ height + 1 :=
  Nat.succ_le_succ (Nat.max_le.mpr ⟨Nat.max_le.mpr ⟨Nat.zero_le _, bounded⟩, Nat.zero_le _⟩)

theorem choice?_choose {names : List String} {name : String} {index : Nat}
    (listed : nameIndex? names (text.toItem name) = some (some index)) (content : Item) :
    choice? names (choose name content) = some (index, some content) := by
  simp only [choice?, choose, listed]
  rfl

theorem choice?_name {names : List String} {name : String} {index : Nat}
    (listed : nameIndex? names (text.toItem name) = some (some index)) :
    choice? names (text.toItem name) = some (index, none) := by
  change (do return (← (← nameIndex? names (text.toItem name)), none)) = some (index, none)
  rw [listed]
  rfl

theorem Reads.pair {first : Layout α} {second : Layout β} {height levels : Nat} (reads : first.Reads height levels)
    (reads' : second.Reads height levels) : (first.pair second).Reads (height + 1) (levels + 1) where
  height_le record := height_array_pair (reads.height_le record.1) (reads'.height_le record.2)
  ofItem? record depth enough := by
    obtain ⟨depth, rfl⟩ : ∃ inner, depth = inner + 1 := ⟨depth - 1, by omega⟩
    have deep : levels ≤ depth := Nat.le_of_succ_le_succ enough
    simp [Layout.pair, reads.ofItem? record.1 depth deep, reads'.ofItem? record.2 depth deep]

/-! ## Features -/

theorem coordinate_reads : coordinate.Reads 1 1 where
  height_le _ := height_array_pair (Nat.le_refl _) (Nat.le_refl _)
  ofItem? c _ enough := structureOfItem?_array float_reads float_reads "x" "y" Coordinate.mk c.x c.y enough

theorem geometry_reads : geometry.Reads 4 3 where
  height_le
    | .point position => height_choose (Nat.le_trans (coordinate_reads.height_le position) (by decide))
    | .lineString path => height_choose (Nat.le_trans (coordinate_reads.list.height_le path) (by decide))
    | .polygon rings => height_choose (coordinate_reads.list.list.height_le rings)
  ofItem?
    | .point position, depth, enough => by
      have listed : nameIndex? geometryNames (text.toItem "Point") = some (some 0) := by decide
      simp only [geometry, choice?_choose listed]
      simp [coordinate_reads.ofItem? position depth (by omega)]
    | .lineString path, depth, enough => by
      have listed : nameIndex? geometryNames (text.toItem "LineString") = some (some 1) := by decide
      simp only [geometry, choice?_choose listed]
      simp [coordinate_reads.list.ofItem? path depth (by omega)]
    | .polygon rings, depth, enough => by
      have listed : nameIndex? geometryNames (text.toItem "Polygon") = some (some 2) := by decide
      simp only [geometry, choice?_choose listed]
      simp [coordinate_reads.list.list.ofItem? rings depth (by omega)]

theorem value_reads : value.Reads 5 3 where
  height_le
    | .null => Nat.zero_le _
    | .boolean b => height_choose (Nat.le_trans (boolean_reads.height_le b) (by decide))
    | .integer n => height_choose (Nat.le_trans (int64_reads.height_le n) (by decide))
    | .float x => height_choose (Nat.le_trans (float_reads.height_le x) (by decide))
    | .string s => height_choose (Nat.le_trans (text_reads.height_le s) (by decide))
    | .timestamp n => height_choose (Nat.le_trans (int64_reads.height_le n) (by decide))
    | .geometry g => height_choose (geometry_reads.height_le g)
  ofItem?
    | .null, _, _ => by
      have listed : nameIndex? valueNames (text.toItem "Null") = some (some 0) := by decide
      simp only [value, choice?_name listed]
      rfl
    | .boolean b, depth, _ => by
      have listed : nameIndex? valueNames (text.toItem "Boolean") = some (some 1) := by decide
      simp only [value, choice?_choose listed]
      simp [boolean_reads.ofItem? b depth (Nat.zero_le _)]
    | .integer n, depth, _ => by
      have listed : nameIndex? valueNames (text.toItem "Integer") = some (some 2) := by decide
      simp only [value, choice?_choose listed]
      simp [int64_reads.ofItem? n depth (Nat.zero_le _)]
    | .float x, depth, _ => by
      have listed : nameIndex? valueNames (text.toItem "Float") = some (some 3) := by decide
      simp only [value, choice?_choose listed]
      simp [float_reads.ofItem? x depth (Nat.zero_le _)]
    | .string s, depth, _ => by
      have listed : nameIndex? valueNames (text.toItem "String") = some (some 4) := by decide
      simp only [value, choice?_choose listed]
      simp [text_reads.ofItem? s depth (Nat.zero_le _)]
    | .timestamp n, depth, _ => by
      have listed : nameIndex? valueNames (text.toItem "Timestamp") = some (some 5) := by decide
      simp only [value, choice?_choose listed]
      simp [int64_reads.ofItem? n depth (Nat.zero_le _)]
    | .geometry g, depth, enough => by
      have listed : nameIndex? valueNames (text.toItem "Geometry") = some (some 6) := by decide
      simp only [value, choice?_choose listed]
      simp [geometry_reads.ofItem? g depth enough]

theorem feature_reads : feature.Reads 7 5 where
  height_le f := height_array_pair (Nat.le_trans (text_reads.height_le f.id) (by decide)) (value_reads.list.height_le f.values)
  ofItem? f _ enough :=
    structureOfItem?_array (text_reads.mono (Nat.zero_le _) (Nat.zero_le _)) value_reads.list "id" "values" Feature.mk
      f.id f.values enough

/-! ## The format -/

/-- A record is read from the front of what begins with its stored form. -/
theorem Reads.decode_encode_append {layout : Layout α} (reads : layout.Reads Item.nestingLimit depthLimit) {record : α}
    (countable : (layout.toItem record).Countable) (rest : Bytes) :
    layout.format.decode ((layout.toItem record).encode ++ rest) = .ok record := by
  simp only [format, Item.decode?_encode_append (reads.height_le record) countable, Option.bind_some,
    reads.ofItem? record depthLimit (Nat.le_refl _)]

theorem Reads.restores {layout : Layout α} (reads : layout.Reads Item.nestingLimit depthLimit) :
    layout.format.Restores := by
  rintro record payload ⟨⟩ small
  have decoded := reads.decode_encode_append (Item.countable_of_length _ small) []
  rwa [List.append_nil] at decoded

/-- Features come back from their runs as they were. -/
theorem feature_restores : feature.format.Restores := (feature_reads.mono (by decide) (by decide)).restores

end SpillSort.Layout
