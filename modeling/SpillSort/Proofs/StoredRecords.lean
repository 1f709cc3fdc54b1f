import SpillSort.Proofs.LayoutReading

/-! # Records in front of other bytes

A layout is given back a record by whatever begins with the record's stored form. Every string and list of the
record has to be short enough for its length to be written, and nothing else is asked: numbers of any size, floats
of any bits and shapes with any number of parts, or none, come back as they were.
-/

namespace SpillSort

/-! ## Lengths that can be written -/

/-- The shape's lists are shorter than what four bytes can count. -/
def Geometry.Countable : Geometry → Prop
  | .point _ => True
  | .lineString path => path.length < 2 ^ 32
  | .polygon rings => rings.length < 2 ^ 32 ∧ ∀ ring ∈ rings, ring.length < 2 ^ 32

instance : DecidablePred Geometry.Countable
  | .point _ => inferInstanceAs (Decidable True)
  | .lineString path => inferInstanceAs (Decidable (path.length < 2 ^ 32))
  | .polygon rings => inferInstanceAs (Decidable (rings.length < 2 ^ 32 ∧ ∀ ring ∈ rings, ring.length < 2 ^ 32))

/-- The value's text or shape is no longer than can be written. -/
def Value.Countable : Value → Prop
  | .string s => (utf8Bytes s).length < 2 ^ 32
  | .geometry g => g.Countable
  | _ => True

instance : DecidablePred Value.Countable
  | .string s => inferInstanceAs (Decidable ((utf8Bytes s).length < 2 ^ 32))
  | .geometry g => inferInstanceAs (Decidable g.Countable)
  | .null | .boolean _ | .integer _ | .float _ | .timestamp _ => inferInstanceAs (Decidable True)

structure Feature.Countable (feature : Feature) : Prop where
  id : (utf8Bytes feature.id).length < 2 ^ 32
  count : feature.values.length < 2 ^ 32
  values : ∀ value ∈ feature.values, value.Countable

theorem Item.countableItems_iff {items : List Item} : CountableItems items ↔ ∀ item ∈ items, item.Countable := by
  induction items with
  | nil => simp [CountableItems]
  | cons item items ih => rw [CountableItems, ih, List.forall_mem_cons]

namespace Layout

variable {α β : Type}

theorem countable_list {layout : Layout α} {records : List α} (short : records.length < 2 ^ 32)
    (countable : ∀ record ∈ records, (layout.toItem record).Countable) : (layout.list.toItem records).Countable := by
  refine ⟨by rwa [List.length_map], Item.countableItems_iff.mpr ?_⟩
  intro item present
  obtain ⟨record, among, rfl⟩ := List.mem_map.mp present
  exact countable record among

theorem countable_array_pair {a b : Item} (first : a.Countable) (second : b.Countable) : (Item.array [a, b]).Countable :=
  ⟨by simp, first, second, trivial⟩

/-- The names of choices are short. -/
theorem countable_choose {names : List String} {name : String} {content : Item}
    (brief : ∀ name ∈ names, (utf8Bytes name).length < 2 ^ 32) (listed : name ∈ names) (countable : content.Countable) :
    (choose name content).Countable :=
  ⟨by simp, ⟨brief name listed, countable⟩, trivial⟩

theorem geometryNames_brief : ∀ name ∈ geometryNames, (utf8Bytes name).length < 2 ^ 32 := by decide

theorem valueNames_brief : ∀ name ∈ valueNames, (utf8Bytes name).length < 2 ^ 32 := by decide

theorem int64_countable (n : Int64) : (int64.toItem n).Countable := by
  simp only [int64]
  split <;> trivial

theorem coordinate_countable (position : Coordinate) : (coordinate.toItem position).Countable :=
  countable_array_pair trivial trivial

theorem path_countable {path : List Coordinate} (short : path.length < 2 ^ 32) :
    (coordinate.list.toItem path).Countable :=
  countable_list short fun position _ => coordinate_countable position

theorem geometry_countable {shape : Geometry} (countable : shape.Countable) : (geometry.toItem shape).Countable := by
  cases shape with
  | point position => exact countable_choose geometryNames_brief (by decide) (coordinate_countable position)
  | lineString path => exact countable_choose geometryNames_brief (by decide) (path_countable countable)
  | polygon rings =>
    obtain ⟨few, short⟩ := countable
    exact countable_choose geometryNames_brief (by decide)
      (countable_list few fun ring among => path_countable (short ring among))

theorem value_countable {value : Value} (countable : value.Countable) : (Layout.value.toItem value).Countable := by
  cases value with
  | null => exact valueNames_brief "Null" (by decide)
  | boolean b => exact countable_choose valueNames_brief (by decide) trivial
  | integer n => exact countable_choose valueNames_brief (by decide) (int64_countable n)
  | float x => exact countable_choose valueNames_brief (by decide) trivial
  | string s => exact countable_choose valueNames_brief (by decide) countable
  | timestamp n => exact countable_choose valueNames_brief (by decide) (int64_countable n)
  | geometry g => exact countable_choose valueNames_brief (by decide) (geometry_countable countable)

theorem feature_countable {f : Feature} (countable : f.Countable) : (feature.toItem f).Countable :=
  countable_array_pair countable.id
    (countable_list countable.count fun value among => value_countable (countable.values value among))

/-! ## Stored forms -/

/-- The record has a stored form, and is what is read of any bytes that begin with it. -/
def GivesBack (layout : Layout α) (record : α) : Prop :=
  ∃ payload, layout.format.encode record = .ok payload ∧
    ∀ rest, layout.format.decode (payload ++ rest) = .ok record

theorem Reads.givesBack {layout : Layout α} {height levels : Nat} (reads : layout.Reads height levels)
    (shallow : height ≤ Item.nestingLimit) (few : levels ≤ depthLimit) {record : α}
    (countable : (layout.toItem record).Countable) : layout.GivesBack record :=
  ⟨_, rfl, (reads.mono shallow few).decode_encode_append countable⟩

/-- Features, integers, strings and pairs of the two are given back, bit for bit, by their stored forms with anything
after them, if no length in them is too large to be written. -/
theorem records_givenBack :
    (∀ f : Feature, f.Countable → feature.GivesBack f) ∧
    (∀ n, int64.GivesBack n) ∧
    (∀ s, (utf8Bytes s).length < 2 ^ 32 → text.GivesBack s) ∧
    (∀ n s, (utf8Bytes s).length < 2 ^ 32 → (int64.pair text).GivesBack (n, s)) := by
  refine ⟨?features, ?integers, ?strings, ?pairs⟩
  case features =>
    intro f countable
    exact feature_reads.givesBack (by decide) (by decide) (feature_countable countable)
  case integers =>
    intro n
    exact int64_reads.givesBack (by decide) (by decide) (int64_countable n)
  case strings =>
    intro s short
    exact text_reads.givesBack (by decide) (by decide) short
  case pairs =>
    intro n s short
    exact (int64_reads.pair text_reads).givesBack (by decide) (by decide) (countable_array_pair (int64_countable n) short)

/-- A negative NaN, both ends of the integers and rings without positions among the values, and a text before more. -/
theorem records_givenBack_sample :
    feature.GivesBack ⟨"", [.null, .float ⟨0xFFF8000000000001⟩, .integer Int64.minValue, .timestamp Int64.maxValue,
      .string "ß", .geometry (.polygon [[], [⟨⟨0⟩, ⟨0x8000000000000000⟩⟩]]), .geometry (.lineString [])]⟩ ∧
    text.GivesBack "abc" ∧ (int64.pair text).GivesBack (-33, "") := by
  obtain ⟨features, -, strings, pairs⟩ := records_givenBack
  exact ⟨features _ ⟨by decide, by decide, by decide⟩, strings _ (by decide), pairs _ _ (by decide)⟩

/-- Each side of a change of width. -/
example : [-129, -128, -33, -32, 127, 128, 255, 256].map (fun n => (int64.toItem n).encode) =
    [[0xD1, 0xFF, 0x7F], [0xD0, 0x80], [0xD0, 0xDF], [0xE0], [0x7F], [0xCC, 0x80], [0xCC, 0xFF], [0xCD, 1, 0]] := by
  decide

end Layout

end SpillSort
