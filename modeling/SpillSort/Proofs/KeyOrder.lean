import SpillSort.Proofs.Answers
import SpillSort.SortKey.Comparator

/-! # Keys order features

Every registered ordering of values is a total preorder, and so is what keys make of such orderings: the first key
that decides, read in its direction, and the identifier in the end.
-/

namespace SpillSort

/-! ## Values -/

namespace Value

/-- The place of a value: one for all values with a content to compare, and that of its variant for any other. -/
def place {κ : Type} (middle : Nat) (content? : Value → Option κ) (value : Value) : Nat :=
  if (content? value).isSome then middle else value.variantRank

/-- A comparison by place and then by content is a total preorder. -/
theorem transCmp_of_place {κ : Type} [Ord κ] [Std.TransOrd κ] {ordering : Comparison Value} (middle : Nat)
    (content? : Value → Option κ)
    (same : ∀ a b, ordering a b = compareLex (compareOn (place middle content?)) (compareOn content?) a b) :
    Std.TransCmp ordering := by
  obtain rfl : ordering = compareLex (compareOn (place middle content?)) (compareOn content?) :=
    funext fun a => funext fun b => same a b
  infer_instance

def boolean? : Value → Option Bool
  | .boolean b => some b
  | _ => none

def integer? : Value → Option Int64
  | .integer n => some n
  | _ => none

def string? : Value → Option String
  | .string s => some s
  | _ => none

def timestamp? : Value → Option Int64
  | .timestamp n => some n
  | _ => none

theorem compareBooleans_transCmp : Std.TransCmp compareBooleans := by
  refine transCmp_of_place 1 boolean? fun a b => ?_
  cases a <;> cases b <;> rfl

theorem compareIntegers_transCmp : Std.TransCmp compareIntegers := by
  refine transCmp_of_place 2 integer? fun a b => ?_
  cases a <;> cases b <;> rfl

/-- The rank of a value's number, with any way to round integers and to rank numbers. -/
def rankBy (round : Int64 → Binary64) (rank : Binary64 → Nat) : Value → Option Nat
  | .float x => some (rank x)
  | .integer n => some (rank (round n))
  | _ => none

/-- Two numbers by their ranks. -/
def compareRanks? (round : Int64 → Binary64) (rank : Binary64 → Nat) (a b : Value) : Option Ordering :=
  match rankBy round rank a, rankBy round rank b with
  | some x, some y => some (compare x y)
  | _, _ => none

/-- No variant stands between integers and floats, so they can share a place. -/
theorem transCmp_rankBy (round : Int64 → Binary64) (rank : Binary64 → Nat) :
    Std.TransCmp (nullsFirst (compareRanks? round rank)) := by
  refine transCmp_of_place 2 (rankBy round rank) fun a b => ?_
  cases a <;> cases b <;> rfl

theorem compareFloats_transCmp : Std.TransCmp compareFloats := by
  have same : compareFloats = nullsFirst (compareRanks? .ofInt64 Binary64.rank) := by
    refine congrArg nullsFirst (funext fun a => funext fun b => ?_)
    cases a <;> cases b <;> simp [number?, compareRanks?, rankBy, Binary64.totalCompare]
  rw [same]
  exact transCmp_rankBy .ofInt64 Binary64.rank

theorem compareStrings_transCmp : Std.TransCmp compareStrings := by
  refine transCmp_of_place 4 string? fun a b => ?_
  cases a <;> cases b <;> rfl

theorem compareTimestamps_transCmp : Std.TransCmp compareTimestamps := by
  refine transCmp_of_place 5 timestamp? fun a b => ?_
  cases a <;> cases b <;> rfl

/-- Null ties with itself and stands before everything else. -/
structure NullLowest (ordering : Comparison Value) : Prop where
  null_null : ordering .null .null = .eq
  null_lt : ∀ value, value ≠ .null → ordering .null value = .lt
  gt_null : ∀ value, value ≠ .null → ordering value .null = .gt

theorem nullsFirst_nullLowest (typed? : Value → Value → Option Ordering) : NullLowest (nullsFirst typed?) where
  null_null := rfl
  null_lt value other := by cases value <;> first | rfl | exact absurd rfl other
  gt_null value other := by cases value <;> first | rfl | exact absurd rfl other

end Value

/-- Every registered ordering is a total preorder. -/
def OrderingRegistry.Lawful (registry : OrderingRegistry) : Prop :=
  ∀ type ordering, registry.lookup type = some ordering → Std.TransCmp ordering

theorem OrderingRegistry.lawful_scalars : scalars.Lawful := by
  intro type ordering found
  cases type with
  | boolean =>
    cases found
    exact Value.compareBooleans_transCmp
  | integer =>
    cases found
    exact Value.compareIntegers_transCmp
  | float =>
    cases found
    exact Value.compareFloats_transCmp
  | string =>
    cases found
    exact Value.compareStrings_transCmp
  | timestamp =>
    cases found
    exact Value.compareTimestamps_transCmp
  | geometry => cases found

/-! ## Keys -/

/-- A comparison of one aspect, read in either direction, is a total preorder. -/
theorem Direction.transCmp_apply {α β : Type} (direction : Direction) (aspect : α → β) {ordering : Comparison β}
    (lawful : Std.TransCmp ordering) :
    Std.TransCmp fun a b => direction.apply (ordering (aspect a) (aspect b)) := by
  have swap (x y : β) : ordering x y = (ordering y x).swap := Std.OrientedCmp.eq_swap
  have chain (x y z : β) (first : (ordering x y).isLE) (second : (ordering y z).isLE) : (ordering x z).isLE :=
    Std.TransCmp.isLE_trans first second
  cases direction with
  | ascending => exact { eq_swap := swap _ _, isLE_trans := chain _ _ _ }
  | descending =>
    have swapped (a b : α) : Direction.apply .descending (ordering (aspect a) (aspect b)) = ordering (aspect b) (aspect a) :=
      (swap _ _).symm
    simp only [swapped]
    exact { eq_swap := swap _ _, isLE_trans := fun first second => chain _ _ _ second first }

namespace ResolvedKey

/-- The key's ordering is a total preorder. -/
def Lawful : ResolvedKey → Prop
  | .identifier _ => True
  | .property _ _ ordering => Std.TransCmp ordering

theorem transCmp_compare {key : ResolvedKey} (lawful : key.Lawful) : Std.TransCmp key.compare := by
  cases key with
  | identifier direction => exact direction.transCmp_apply Feature.id inferInstance
  | property index direction ordering => exact direction.transCmp_apply (fun feature : Feature => feature.value index) lawful

/-- Keys are resolved to lawful ones. -/
theorem lawful_of_resolve {schema : Schema} {registry : OrderingRegistry} (lawful : registry.Lawful) {key : SortKey}
    {resolved : ResolvedKey} (found : resolve schema registry key = .ok resolved) : resolved.Lawful := by
  cases key with
  | identifier direction =>
    cases found
    trivial
  | property name direction =>
    simp only [resolve] at found
    split at found
    · cases found
    · split at found
      · cases found
      · next registered =>
        cases found
        exact lawful _ _ registered

end ResolvedKey

namespace FeatureComparator

theorem transCmp_tied : Std.TransCmp (Comparison.tied : Comparison Feature) :=
  { eq_swap := rfl, isLE_trans := fun _ _ => rfl }

theorem transCmp_compareKeys {keys : List ResolvedKey} (lawful : ∀ key ∈ keys, key.Lawful) :
    Std.TransCmp (compareKeys keys) := by
  induction keys with
  | nil => exact transCmp_tied
  | cons key keys ih =>
    obtain ⟨first, rest⟩ := List.forall_mem_cons.mp lawful
    have := ResolvedKey.transCmp_compare first
    have := ih rest
    exact inferInstanceAs (Std.TransCmp (compareLex key.compare (compareKeys keys)))

theorem transCmp_compare {comparator : FeatureComparator} (lawful : ∀ key ∈ comparator.keys, key.Lawful) :
    Std.TransCmp comparator.compare := by
  have := transCmp_compareKeys lawful
  have : Std.TransCmp fun a b : Feature => if comparator.identifierBreaksTies then Ord.compare a.id b.id else .eq := by
    split
    · exact inferInstanceAs (Std.TransCmp (compareOn Feature.id))
    · exact transCmp_tied
  exact inferInstanceAs (Std.TransCmp (compareLex (compareKeys comparator.keys) _))

/-- What keys are resolved to is lawful, and leaves the last word to the identifier. -/
theorem lawful_of_resolve {schema : Schema} {keys : List SortKey} {registry : OrderingRegistry}
    (lawful : registry.Lawful) {comparator : FeatureComparator}
    (found : resolve schema keys registry = .ok comparator) :
    (∀ key ∈ comparator.keys, key.Lawful) ∧ comparator.identifierBreaksTies = true := by
  simp only [resolve] at found
  split at found
  · cases found
  · cases mapped : keys.mapM (ResolvedKey.resolve schema registry) with
    | error fault =>
      rw [mapped] at found
      cases found
    | ok resolved =>
      rw [mapped] at found
      cases found
      refine ⟨fun key present => ?_, rfl⟩
      obtain ⟨sortKey, -, bound⟩ := mem_of_mapM_eq_ok mapped present
      exact ResolvedKey.lawful_of_resolve lawful bound

/-- What keys are resolved to is a total preorder. -/
theorem transCmp_of_resolve {schema : Schema} {keys : List SortKey} {registry : OrderingRegistry}
    (lawful : registry.Lawful) {comparator : FeatureComparator}
    (found : resolve schema keys registry = .ok comparator) : Std.TransCmp comparator.compare :=
  transCmp_compare (lawful_of_resolve lawful found).1

/-- Where the identifier breaks ties, features that tie are called the same. -/
theorem id_eq_of_compare_eq {comparator : FeatureComparator} (breaks : comparator.identifierBreaksTies = true)
    {a b : Feature} (tied : comparator.compare a b = .eq) : a.id = b.id := by
  simp only [compare, breaks, if_true, Ordering.then_eq_eq] at tied
  exact Std.LawfulEqCmp.eq_of_compare tied.2

/-- The five orderings of values and every comparison of features made of such orderings are total preorders, the
former with null below everything else; with the identifier as tie break only features of one identifier tie. -/
theorem orderings_total :
    (Std.TransCmp Value.compareBooleans ∧ Value.NullLowest Value.compareBooleans) ∧
    (Std.TransCmp Value.compareIntegers ∧ Value.NullLowest Value.compareIntegers) ∧
    (Std.TransCmp Value.compareFloats ∧ Value.NullLowest Value.compareFloats) ∧
    (Std.TransCmp Value.compareStrings ∧ Value.NullLowest Value.compareStrings) ∧
    (Std.TransCmp Value.compareTimestamps ∧ Value.NullLowest Value.compareTimestamps) ∧
    ∀ schema keys registry comparator, OrderingRegistry.Lawful registry → resolve schema keys registry = .ok comparator →
      Std.TransCmp comparator.compare ∧ Std.TransCmp comparator.withoutTieBreak.compare ∧
        ∀ a b, comparator.compare a b = .eq → a.id = b.id := by
  refine ⟨⟨Value.compareBooleans_transCmp, Value.nullsFirst_nullLowest _⟩,
    ⟨Value.compareIntegers_transCmp, Value.nullsFirst_nullLowest _⟩,
    ⟨Value.compareFloats_transCmp, Value.nullsFirst_nullLowest _⟩,
    ⟨Value.compareStrings_transCmp, Value.nullsFirst_nullLowest _⟩,
    ⟨Value.compareTimestamps_transCmp, Value.nullsFirst_nullLowest _⟩, ?_⟩
  intro schema keys registry comparator lawful found
  obtain ⟨keys_lawful, breaks⟩ := lawful_of_resolve lawful found
  have untied : ∀ key ∈ comparator.withoutTieBreak.keys, key.Lawful := keys_lawful
  exact ⟨transCmp_compare keys_lawful, transCmp_compare untied, fun _ _ => id_eq_of_compare_eq breaks⟩

theorem orderings_total_sample :
    ∃ comparator, resolve ⟨"roads", [⟨"lanes", .integer⟩, ⟨"width", .float⟩]⟩
        [.property "width" .descending, .property "lanes" .ascending] .scalars = .ok comparator ∧
      Std.TransCmp comparator.compare ∧ Std.TransCmp comparator.withoutTieBreak.compare ∧
        ∀ a b, comparator.compare a b = .eq → a.id = b.id := by
  obtain ⟨-, -, -, -, -, features⟩ := orderings_total
  have found : resolve ⟨"roads", [⟨"lanes", .integer⟩, ⟨"width", .float⟩]⟩
      [.property "width" .descending, .property "lanes" .ascending] .scalars =
      .ok ⟨[.property 1 .descending Value.compareFloats, .property 0 .ascending Value.compareIntegers], true⟩ := rfl
  exact ⟨_, found, features _ _ _ _ OrderingRegistry.lawful_scalars found⟩

end FeatureComparator

end SpillSort
