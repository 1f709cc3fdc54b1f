import SpillSort.Proofs.CommandRun
import SpillSort.Proofs.ParsedValues

/-! # Sorting what was sorted

A table that was sorted and written is in order when it is read again, so that sorting it again by the same keys
leaves its text as it is. All that reading can change of a value is a NaN, which loses its sign and stands at the
other end of its column then; so none with a sign may be in a column among the keys.
-/

namespace SpillSort

/-! ## What is read from a cell has the text of that cell -/

namespace Binary64

theorem write_of_isNaN {x : Binary64} (isNaN : x.isNaN) : x.write = ['N', 'a', 'N'] := by
  simp [write, writeSize, isNaN]

theorem write_settled (x : Binary64) : x.settled.write = x.write := by
  unfold settled
  split
  · next isNaN => rw [write_of_isNaN isNaN, write_of_isNaN (by decide)]
  · rfl

end Binary64

namespace Geometry

theorem writeCoordinate_settled (position : Coordinate) :
    writeCoordinate position.settled = writeCoordinate position := by
  simp only [writeCoordinate, Coordinate.settled, Binary64.write_settled]

theorem writePath_settled (path : List Coordinate) : writePath (path.map Coordinate.settled) = writePath path := by
  simp only [writePath, List.map_map, Function.comp_def, writeCoordinate_settled]

theorem write_settled (geometry : Geometry) : geometry.settled.write = geometry.write := by
  cases geometry with
  | point position => rw [settled, write_point, write_point, writeCoordinate_settled]
  | lineString path => rw [settled, write_lineString, write_lineString, writePath_settled]
  | polygon rings =>
    have same : (rings.map (·.map Coordinate.settled)).map writePath = rings.map writePath := by
      simp only [List.map_map, Function.comp_def, writePath_settled]
    rw [settled, write_polygon, write_polygon, same]

end Geometry

theorem Value.toCell_settled (value : Value) : value.settled.toCell = value.toCell := by
  cases value with
  | float x => exact congrArg String.ofList x.write_settled
  | geometry geometry => exact congrArg String.ofList geometry.write_settled
  | null | boolean | integer | string | timestamp => rfl

namespace Feature

variable {fields : List Field}

theorem value_settled (feature : Feature) {index : Nat} (inside : index < fields.length) :
    (feature.settled fields).value index = (feature.value index).settled := by
  simp only [value, settled, List.getD_eq_getElem?_getD, List.getElem?_map, List.getElem?_range inside, Option.map_some,
    Option.getD_some]

theorem cells_settled (feature : Feature) :
    (feature.settled fields).cells fields.length = feature.cells fields.length := by
  refine congrArg (List.cons feature.id) (List.map_congr_left fun index present => ?_)
  rw [value_settled feature (List.mem_range.mp present), Value.toCell_settled]

end Feature

/-- A table has the text of the table that is read from it. -/
theorem tableText_settled (schema : Schema) (name : String) (features : List Feature) :
    tableText ⟨name, schema.fields⟩ (features.map (·.settled schema.fields)) = tableText schema features := by
  rw [tableText_eq_cellsText, tableText_eq_cellsText, List.map_map]
  simp only [Function.comp_def, Feature.cells_settled]
  rfl

/-! ## What keys can tell apart -/

namespace FeatureComparator

/-- Two features with the same identifier and with the same values at the places of some keys. -/
structure Alike (keys : List ResolvedKey) (a b : Feature) : Prop where
  id_eq : a.id = b.id
  value_eq : ∀ index direction ordering, .property index direction ordering ∈ keys → a.value index = b.value index

/-- Keys tell no more of features than their identifiers and their values at the places of the keys. -/
theorem compareKeys_congr {keys : List ResolvedKey} {a a' b b' : Feature} (left : Alike keys a a')
    (right : Alike keys b b') : compareKeys keys a b = compareKeys keys a' b' := by
  induction keys with
  | nil => rfl
  | cons key keys ih =>
    have rest := ih ⟨left.id_eq, fun _ _ _ present => left.value_eq _ _ _ (List.mem_cons_of_mem key present)⟩
      ⟨right.id_eq, fun _ _ _ present => right.value_eq _ _ _ (List.mem_cons_of_mem key present)⟩
    have first : key.compare a b = key.compare a' b' := by
      cases key with
      | identifier direction => rw [ResolvedKey.compare, ResolvedKey.compare, left.id_eq, right.id_eq]
      | property index direction ordering =>
        rw [ResolvedKey.compare, ResolvedKey.compare, left.value_eq _ _ _ List.mem_cons_self,
          right.value_eq _ _ _ List.mem_cons_self]
    rw [compareKeys, compareKeys, first, rest]

theorem compare_congr {comparator : FeatureComparator} {a a' b b' : Feature} (left : Alike comparator.keys a a')
    (right : Alike comparator.keys b b') : comparator.compare a b = comparator.compare a' b' := by
  rw [compare, compare, compareKeys_congr left right, left.id_eq, right.id_eq]

/-- The places of the keys are those of scalar columns that they name. -/
theorem exists_of_resolve {schema : Schema} {keys : List SortKey} {comparator : FeatureComparator}
    (resolved : resolve schema keys .scalars = .ok comparator) {index : Nat} {direction : Direction}
    {ordering : Comparison Value} (present : .property index direction ordering ∈ comparator.keys) :
    ∃ name field, .property name direction ∈ keys ∧ schema.index? name = some index ∧
      schema.fields[index]? = some field ∧ field.type ≠ .geometry := by
  unfold resolve at resolved
  split at resolved
  · cases resolved
  · obtain ⟨bound, mapped, rfl⟩ := exists_of_map_eq_ok resolved
    obtain ⟨key, among, key_eq⟩ := mem_of_mapM_eq_ok mapped present
    cases key with
    | identifier direction' => cases key_eq
    | property name direction' =>
      simp only [ResolvedKey.resolve] at key_eq
      split at key_eq
      · cases key_eq
      · next found =>
        split at key_eq
        · cases key_eq
        · next registered =>
          cases key_eq
          have inside : index < schema.fields.length := (List.findIdx?_eq_some_iff_findIdx_eq.mp found).1
          refine ⟨name, schema.fields[index], among, found, List.getElem?_eq_getElem inside, fun shape => ?_⟩
          rw [List.getD_eq_getElem?_getD, List.getElem?_eq_getElem inside, Option.getD_some, shape] at registered
          cases registered

end FeatureComparator

namespace Command

variable {name : String}

/-- No feature has a NaN with a sign in a column among the keys. -/
def SortTask.Unsigned (task : SortTask) (keys : List SortKey) : Prop :=
  ∀ name direction index, .property name direction ∈ keys → task.schema.index? name = some index →
    ∀ feature ∈ task.features, feature.value index ≠ .float (.nan true)

/-- For the keys a feature is what is read of it again. -/
theorem SortTask.alike_settled {task : SortTask} {keys : List SortKey}
    (resolved : FeatureComparator.resolve task.schema keys .scalars = .ok task.comparator)
    (parsed : ∀ feature ∈ task.features, feature.Parsed task.schema.fields) (unsigned : task.Unsigned keys)
    {feature : Feature} (present : feature ∈ task.features) :
    FeatureComparator.Alike task.comparator.keys (feature.settled task.schema.fields) feature := by
  refine ⟨rfl, fun index direction ordering among => ?_⟩
  obtain ⟨name, field, key, place, found, scalar⟩ := FeatureComparator.exists_of_resolve resolved among
  obtain ⟨cell, read⟩ := (parsed feature present).cells index field found
  rw [feature.value_settled (List.getElem?_eq_some_iff.mp found).1]
  exact Value.settled_of_ofCell read scalar (unsigned name direction index key place feature present)

/-- What there is to sort in a table that was sorted is what it was, as it is read again. -/
def SortTask.again (task : SortTask) (name : String) : SortTask :=
  ⟨⟨name, task.schema.fields⟩,
    (task.comparator.compare.stableSort task.features).map (·.settled task.schema.fields), task.comparator⟩

/-- Features in order are in order when they are read again. -/
theorem SortTask.ordered_again {task : SortTask} {keys : List SortKey}
    (resolved : FeatureComparator.resolve task.schema keys .scalars = .ok task.comparator)
    (parsed : ∀ feature ∈ task.features, feature.Parsed task.schema.fields) (unsigned : task.Unsigned keys) :
    task.comparator.compare.Ordered (task.again name).features := by
  have lawful : Std.TransCmp task.comparator.compare :=
    FeatureComparator.transCmp_of_resolve OrderingRegistry.lawful_scalars resolved
  have sorted := @Comparison.ordered_stableSort _ task.comparator.compare _ task.features
  refine List.pairwise_map.mpr (sorted.imp_of_mem fun {a b} first second le => ?_)
  have alike {feature : Feature} (present : feature ∈ task.comparator.compare.stableSort task.features) :=
    alike_settled resolved parsed unsigned ((Comparison.perm_stableSort _ task.features).mem_iff.mp present)
  rw [Comparison.le, FeatureComparator.compare_congr (alike first) (alike second)]
  exact le

theorem SortTask.result_of_whole (task : SortTask) {options : SorterOptions}
    (whole : options.offset = 0 ∧ options.limit = none) :
    task.result options = task.comparator.compare.stableSort task.features := by
  rw [result, SorterOptions.select, whole.1, whole.2, List.drop_zero]
  rfl

theorem resolve_and_parsed_of_task? {options : Options} {tree : FileTree} {task : SortTask}
    (given : task? options tree = some task) :
    FeatureComparator.resolve task.schema options.keys .scalars = .ok task.comparator ∧
      ∀ feature ∈ task.features, feature.Parsed task.schema.fields := by
  obtain ⟨reader, opened, schema_eq, all⟩ := exists_of_task? given
  rw [← schema_eq]
  exact ⟨resolve_of_opened? opened, TableReader.parsed_of_readAll all⟩

theorem task?_again {options options' : Options} {tree tree' : FileTree} {task : SortTask}
    (given : task? options tree = some task) (same_keys : options'.keys = options.keys)
    (found : tree'.find options'.input = .ok (.file (tableText task.schema
      (task.comparator.compare.stableSort task.features)))) :
    task? options' tree' = some (task.again (stem options'.input)) := by
  obtain ⟨resolved, parsed⟩ := resolve_and_parsed_of_task? given
  have fits : ∀ feature ∈ task.comparator.compare.stableSort task.features, feature.Fits task.schema.fields :=
    fun feature present => (parsed feature ((Comparison.perm_stableSort _ task.features).mem_iff.mp present)).fits
  have resolved' : FeatureComparator.resolve ⟨stem options'.input, task.schema.fields⟩ options'.keys .scalars =
      .ok task.comparator := same_keys ▸ resolved
  exact task?_tableText found fits resolved'

/-- A stable sort leaves in place what is in order, and so its text is what it was. -/
theorem tableText_again {task : SortTask} {keys : List SortKey}
    (resolved : FeatureComparator.resolve task.schema keys .scalars = .ok task.comparator)
    (ordered : task.comparator.compare.Ordered (task.again name).features) {options : SorterOptions}
    (whole : options.offset = 0 ∧ options.limit = none) :
    tableText (task.again name).schema ((task.again name).result options) =
      tableText task.schema (task.comparator.compare.stableSort task.features) := by
  have lawful : Std.TransCmp task.comparator.compare :=
    FeatureComparator.transCmp_of_resolve OrderingRegistry.lawful_scalars resolved
  have kept : (task.again name).result options = (task.again name).features := by
    rw [SortTask.result_of_whole _ whole]
    exact (Comparison.eq_stableSort ordered fun _ => rfl).symm
  rw [kept]
  exact tableText_settled task.schema name _

/-- Sorting a table that was sorted by the same keys succeeds and leaves its text as it is: the features that are read
from it are in order. This holds for pages and temporary places of any kind, if nothing is skipped or cut off, no NaN
with a sign is in a column among the keys, and the temporary store takes what is to be spilled. -/
theorem run_resorts {arguments : List String} {tree created : FileTree} {options : Options} {place : FilePlace}
    {task : SortTask} (accepted : Options.read arguments = .ok options) (storable : Storable options tree)
    (creates : tree.create options.output = .ok (.file place, created))
    (whole : options.sorter.offset = 0 ∧ options.sorter.limit = none) (given : task? options tree = some task)
    (unsigned : task.Unsigned options.keys) :
    ∃ text, (run arguments tree).status = some 0 ∧
      (run arguments tree).tree.find options.output = .ok (.file text) ∧
      ∀ arguments' tree' created' options' place', Options.read arguments' = .ok options' →
        options'.keys = options.keys → options'.sorter.offset = 0 ∧ options'.sorter.limit = none →
        tree'.find options'.input = .ok (.file text) → Storable options' tree' →
        tree'.create options'.output = .ok (.file place', created') →
        (∃ task', task? options' tree' = some task' ∧ task'.comparator = task.comparator ∧
          task'.comparator.compare.Ordered task'.features) ∧
        (run arguments' tree').status = some 0 ∧ (run arguments' tree').tree.find options'.output = .ok (.file text) := by
  obtain ⟨status_eq, -, written⟩ := run_of_some accepted storable creates nofun given
  rw [task.result_of_whole whole] at written
  refine ⟨_, status_eq, written place rfl, ?_⟩
  intro arguments' tree' created' options' place' accepted' same_keys whole' found storable' creates'
  obtain ⟨resolved, parsed⟩ := resolve_and_parsed_of_task? given
  have given' := task?_again given same_keys found
  have ordered := @SortTask.ordered_again (stem options'.input) _ _ resolved parsed unsigned
  obtain ⟨status_eq', -, written'⟩ := run_of_some accepted' storable' creates' nofun given'
  rw [tableText_again resolved ordered whole'] at written'
  exact ⟨⟨_, given', rfl, ordered⟩, status_eq', written' place' rfl⟩

theorem storable_of_few {options : Options} {tree : FileTree} {task : SortTask}
    (given : task? options tree = some task) (few : task.features.length < options.sorter.pageSize) :
    Storable options tree := by
  have unfilled : ¬ FillsPage options tree := by
    rintro ⟨reader, comparator, opened, full⟩
    obtain ⟨reader', opened', -, all⟩ := exists_of_task? given
    cases opened.symm.trans opened'
    rw [TableReader.readable_of_readAll all] at full
    exact Nat.not_le.mpr few full
  refine ⟨fun fills => absurd fills unfilled, fun fills => absurd fills unfilled, fun task' given' => ?_⟩
  cases given.symm.trans given'
  rw [SorterOptions.spilled_of_few few]
  exact List.forall_mem_nil _

/-- Two features sorted in place twice. -/
theorem run_resorts_sample :
    ∃ text, (run ["-i", "t", "-o", "t", "-s", "n"] sampleTree).tree.find "t" = .ok (.file text) ∧
      (run ["-i", "t", "-o", "t", "-s", "n"] (run ["-i", "t", "-o", "t", "-s", "n"] sampleTree).tree).tree.find "t" =
        .ok (.file text) := by
  have given := task?_sampleTree "t" .standard
  have storable := @storable_of_few (sampleOptions "t" .standard) _ _ given (by decide)
  have unsigned : SortTask.Unsigned ⟨⟨"t", [⟨"n", .integer⟩]⟩, [⟨"b", [.integer 2]⟩, ⟨"a", [.integer 1]⟩],
      ⟨[.property 0 .ascending Value.compareIntegers], true⟩⟩ [.property "n" .ascending] := by
    intro name direction index key place
    cases List.mem_singleton.mp key
    cases place
    exact List.forall_mem_cons.mpr ⟨nofun, List.forall_mem_singleton.mpr nofun⟩
  obtain ⟨text, -, found, again⟩ := @run_resorts ["-i", "t", "-o", "t", "-s", "n"] sampleTree _
    (sampleOptions "t" .standard) ["t", FileTree.root] _ rfl storable rfl ⟨rfl, rfl⟩ given unsigned
  obtain ⟨-, tree_eq, written⟩ := @run_of_some ["-i", "t", "-o", "t", "-s", "n"] _ _ (sampleOptions "t" .standard) _ _ rfl
    storable rfl nofun given
  refine ⟨text, found, ?_⟩
  cases found.symm.trans (written _ rfl)
  have given' := @task?_again _ (sampleOptions "t" .standard) _ _ _ given rfl found
  have storable' := @storable_of_few (sampleOptions "t" .standard) _ _ given' (by
    rw [SortTask.again, List.length_map, Comparison.length_stableSort]
    decide)
  rw [tree_eq] at found storable' ⊢
  exact (again ["-i", "t", "-o", "t", "-s", "n"] _ _ (sampleOptions "t" .standard) _ rfl rfl ⟨rfl, rfl⟩ found storable' rfl).2.2

/-- A text does not stand for two tables. -/
theorem settled_of_tableText_eq {schema : Schema} {features features' : List Feature}
    (fits : ∀ feature ∈ features, feature.Fits schema.fields) (fits' : ∀ feature ∈ features', feature.Fits schema.fields)
    (same : tableText schema features = tableText schema features') :
    features.map (·.settled schema.fields) = features'.map (·.settled schema.fields) := by
  have read {features : List Feature} (fits : ∀ feature ∈ features, feature.Fits schema.fields) :=
    TableReader.readTitles_cellsText schema.name (@mapM_ofCells_cells schema _ fits)
      (forall_length_cells schema.fields.length features) List.flatten_singleton
  obtain ⟨reader, titles_eq, -, all⟩ := read fits
  obtain ⟨reader', titles_eq', -, all'⟩ := read fits'
  rw [← tableText_eq_cellsText] at titles_eq titles_eq'
  rw [same, titles_eq'] at titles_eq
  cases titles_eq
  exact Except.ok.inj (all.symm.trans all')

/-- A working directory with a table in it in which a NaN with a sign stands first. -/
def signedTree : FileTree :=
  ⟨[(["t", FileTree.root], .file (cellsText ⟨"t", [⟨"v", .float⟩]⟩ [["a", "-NaN"], ["b", "inf"]]))], [FileTree.root]⟩

def signedOptions : Options := ⟨"t", "t", [.property "v" .ascending], some .info, .standard⟩

def signedTask (negative : Bool) : SortTask :=
  ⟨⟨"t", [⟨"v", .float⟩]⟩, [⟨"a", [.float (.nan negative)]⟩, ⟨"b", [.float (.infinity false)]⟩],
    ⟨[.property 0 .ascending Value.compareFloats], true⟩⟩

theorem task?_signedTree : task? signedOptions signedTree = some (signedTask true) := by
  have found : signedTree.find "t" =
      .ok (.file (cellsText ⟨"t", [⟨"v", .float⟩]⟩ [["a", "-NaN"], ["b", "inf"]])) := rfl
  have resolved : FeatureComparator.resolve ⟨"t", [⟨"v", .float⟩]⟩ [.property "v" .ascending] .scalars =
      .ok ⟨[.property 0 .ascending Value.compareFloats], true⟩ := rfl
  exact @task?_cellsText signedOptions _ _ _ _ found rfl (by decide) _ resolved

theorem stableSort_signedTask (negative : Bool) :
    (signedTask negative).comparator.compare.stableSort (signedTask negative).features =
      if negative then (signedTask negative).features else (signedTask negative).features.reverse := by
  cases negative with
  | true => simp +decide [signedTask, Comparison.stableSort, List.mergeSort]
  | false => simp +decide [signedTask, Comparison.stableSort, List.mergeSort]

theorem fits_signedTask (negative : Bool) :
    ∀ feature ∈ (signedTask negative).features, feature.Fits (signedTask negative).schema.fields := by
  have fits (id : String) (x : Binary64) (named : id ≠ "") : Feature.Fits [⟨"v", .float⟩] ⟨id, [.float x]⟩ := by
    refine ⟨named, ?_⟩
    rintro (_ | index) field ⟨⟩
    exact ⟨.inr rfl, trivial⟩
  exact List.forall_mem_cons.mpr ⟨fits _ _ (by decide), List.forall_mem_singleton.mpr (fits _ _ (by decide))⟩

/-- A NaN loses its sign when it is sorted for the first time, and its place when it is sorted for the second. -/
theorem run_resorts_signed :
    ∃ text text', text ≠ text' ∧
      (run ["-i", "t", "-o", "t", "-s", "v"] signedTree).status = some 0 ∧
      (run ["-i", "t", "-o", "t", "-s", "v"] signedTree).tree.find "t" = .ok (.file text) ∧
      (run ["-i", "t", "-o", "t", "-s", "v"] (run ["-i", "t", "-o", "t", "-s", "v"] signedTree).tree).status = some 0 ∧
      (run ["-i", "t", "-o", "t", "-s", "v"] (run ["-i", "t", "-o", "t", "-s", "v"] signedTree).tree).tree.find "t" =
        .ok (.file text') := by
  have accepted : Options.read ["-i", "t", "-o", "t", "-s", "v"] = .ok signedOptions := rfl
  have given := task?_signedTree
  have storable := storable_of_few given (by decide)
  obtain ⟨status_eq, tree_eq, written⟩ := @run_of_some _ _ _ _ (.file ["t", FileTree.root]) _ accepted storable rfl nofun
    given
  have found := written _ rfl
  rw [SortTask.result_of_whole _ ⟨rfl, rfl⟩] at found
  have given' := @task?_again _ signedOptions _ _ _ given rfl found
  have again_eq : (signedTask true).again (stem signedOptions.input) = signedTask false := by
    rw [SortTask.again, stableSort_signedTask]
    rfl
  rw [again_eq] at given'
  have storable' := storable_of_few given' (by decide)
  rw [tree_eq] at given' storable'
  obtain ⟨status_eq', -, written'⟩ := @run_of_some _ _ _ _ (.file ["t", FileTree.root]) _ accepted storable' rfl nofun
    given'
  rw [← tree_eq] at status_eq' written'
  have found' := written' _ rfl
  rw [SortTask.result_of_whole _ ⟨rfl, rfl⟩] at found'
  refine ⟨_, _, fun same => ?_, status_eq, found, status_eq', found'⟩
  rw [stableSort_signedTask, stableSort_signedTask] at same
  have fits' : ∀ feature ∈ (signedTask false).features.reverse, feature.Fits (signedTask false).schema.fields :=
    fun feature present => fits_signedTask false feature (List.mem_reverse.mp present)
  have settled_eq := settled_of_tableText_eq (fits_signedTask true) fits' same
  have ids_eq : ["a", "b"] = ["b", "a"] := congrArg (List.map Feature.id) settled_eq
  exact absurd ids_eq (by decide)

end Command

end SpillSort
