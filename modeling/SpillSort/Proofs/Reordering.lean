import Mathlib.Data.List.Nodup
import SpillSort.SortedReader
import SpillSort.Proofs.Footprint
import SpillSort.Proofs.KeyOrder
import SpillSort.Proofs.LayoutReading

/-! # Features in another order

Where the identifier breaks ties and no two features share one, sorting has a single outcome: it does not matter in
which order the features come, nor how they are cut into pages and what of them is spilled. A sorted reader is itself
a source that gives its features whatever else happens on the temporary store, so this also holds of readers that are
sorted again.
-/

namespace SpillSort

/-- Features held in memory are given whatever happens on the temporary store. -/
theorem yields_memoryReader (schema : Schema) (features : List Feature) (disk : Disk) :
    Yields features (⟨schema, features⟩ : MemoryReader) (fun _ => False) disk := by
  induction features generalizing disk with
  | nil => exact ⟨nofun, fun host _ sound => ⟨⟨.refl _ _, sound⟩, rfl⟩⟩
  | cons feature features ih =>
    exact ⟨nofun, fun host _ sound => ⟨⟨.refl _ _, sound⟩, rfl, fun _ => False, nofun, ih host.disk⟩⟩

/-! ## Sorted readers as sources -/

namespace SortedReader

variable {ρ ε : Type} [FeatureReader ρ ε] {reader : SortedReader ρ} {features : List Feature} {disk : Disk}

/-- Whatever others have done meanwhile, a request is answered with the first feature that is left, and touches the
directory of the stream only. -/
theorem next_spec (holds : reader.stream.Holds False features disk) (kept : reader.stream.Kept disk) {host : Host}
    (within : disk.Within (¬ reader.stream.store.directory = some ·) host.disk) (sound : host.disk.Sound) :
    Ensures (RecordSource.next reader) host fun result later =>
      Answered False (fun rest => result.2.stream.Holds False rest later.disk) features result.1 ∧
        reader.stream.Confined result.2.stream host.disk later.disk := by
  change Ensures (SortedStream.next (ε := ε) reader.stream >>= _) host _
  rw [Ensures.bind_iff]
  exact (SortedStream.next_spec (holds.stable (within.shrinks False))).and
    (SortedStream.next_confined (kept.stable within sound fun _ mine foreign => foreign mine))

/-- A sorted reader gives what its stream has. -/
theorem yields (holds : reader.stream.Holds False features disk) (kept : reader.stream.Kept disk) :
    Yields features reader (reader.stream.store.directory = some ·) disk := by
  induction features generalizing reader disk with
  | nil =>
    refine ⟨fun directory mine => kept.sound.directory_lt directory (kept.removable.present directory mine), ?_⟩
    intro host within sound
    apply (next_spec holds kept within sound).mono
    rintro ⟨answer, reader'⟩ later ⟨answered, confined⟩
    cases answered with
    | ended => exact ⟨⟨confined.within, confined.kept.sound⟩, rfl⟩
    | faulty impossible => exact impossible.elim
  | cons feature features ih =>
    refine ⟨fun directory mine => kept.sound.directory_lt directory (kept.removable.present directory mine), ?_⟩
    intro host within sound
    apply (next_spec holds kept within sound).mono
    rintro ⟨answer, reader'⟩ later ⟨answered, confined⟩
    cases answered with
    | record rest =>
      refine ⟨⟨confined.within, confined.kept.sound⟩, rfl, _, ?_, ih rest confined.kept⟩
      exact fun directory mine => .inl (confined.former directory mine)
    | faulty impossible => exact impossible.elim

end SortedReader

namespace Sorter

variable {σ α ε : Type} [RecordSource σ α ε] [ErrorText ε]

/-- Right after sorting, a stream can find and remove what it has on the temporary store. -/
theorem sortBy_kept {sorter : Sorter} {format : SpillFormat α} {compare : Comparison α} {source : σ}
    {records : List α} {own : Nat → Prop} {host : Host} (sound : host.disk.Sound)
    (yields : Yields records source own host.disk) :
    Ensures (sorter.sortBy (ε := ε) format compare source) host fun result later => ∀ stream, result = .ok stream →
      stream.Kept later.disk := by
  refine sortBy_rule (fun outcome filling later => (filling.Housed ∧ outcome.Lodged filling.store.directory) ∧
    ∃ own', filling.Cuts ⟨compare, format, sorter.options.pageSize⟩ own' records later.disk) ?_ ?_
  · apply ((Filling.run_housed _ source _ _ host).and (Filling.run_cuts yields sound sorter.pageSize_pos)).mono
    rintro ⟨answer, filling⟩ later ⟨housed, cuts⟩ outcome ran
    exact ⟨housed outcome ran, cuts outcome ran⟩
  · rintro outcome filling start start' ⟨⟨housed, lodged⟩, own', cuts⟩ same
    rw [← same] at cuts
    have kept := openStream_kept compare housed lodged (housed.removable cuts) cuts.sound
    apply (SortedStream.skip_confined (ε := ε) sorter.options.offset kept).mono
    rintro ⟨answer, stream⟩ later ⟨⟨⟨⟨runs, files⟩, removable⟩, tidy, sound'⟩, -, -⟩ -
    exact ⟨⟨⟨runs, files⟩, removable⟩, tidy, sound'⟩

/-- What a sorter has to spill of some features can be stored. -/
def Stores (sorter : Sorter) (features : List Feature) (disk : Disk) : Prop :=
  sorter.options.spilled features = [] ∨
    (SpillStore.new sorter.options.place sorter.options.bufferSize).Accepts Layout.feature.format
      (sorter.options.spilled features) disk

end Sorter

/-! ## Features that cannot be stored -/

/-- There are texts of every length. -/
theorem exists_utf8Bytes_length (length : Nat) : ∃ name, (utf8Bytes name).length = length := by
  refine ⟨String.ofList (List.replicate length 'a'), ?_⟩
  have single : (String.utf8EncodeChar 'a').length = 1 := by decide
  rw [utf8Bytes, String.toList_ofList, List.flatMap_replicate, List.length_flatten, List.map_replicate, single]
  simp

/-- A feature whose identifier is too long for a frame has no frame. -/
theorem Layout.not_fits_of_long {f : Feature} (long : 2 ^ 32 ≤ (utf8Bytes f.id).length) :
    ¬ Layout.feature.format.Fits f := by
  rintro ⟨payload, ⟨⟩, small⟩
  simp only [Layout.feature, Layout.text, Item.encode, Item.encodeItems, List.length_append] at small
  omega

/-! ## Sorting features -/

namespace SortedReader

variable {ρ ρ' ε ε' : Type} [FeatureReader ρ ε] [ErrorText ε] [FeatureReader ρ' ε'] [ErrorText ε']

/-- Sorting has given a reader of these features, or what it had to spill could not be stored. -/
def Emits (emitted : List Feature) (stores : Prop) (result : Except (SortFailure ρ ε) (SortedReader ρ)) (later : Host) :
    Prop :=
  match result with
  | .error _ => ¬ stores
  | .ok sorted => ∃ own, Yields emitted sorted own later.disk

omit [ErrorText ε] in
theorem Emits.of_stores {emitted : List Feature} {stores : Prop} {result : Except (SortFailure ρ ε) (SortedReader ρ)}
    {later : Host} (emits : Emits emitted stores result later) (stored : stores) :
    ∃ sorted own, result = .ok sorted ∧ Yields emitted sorted own later.disk := by
  cases result with
  | error failure => exact absurd stored emits
  | ok sorted =>
    obtain ⟨own, yields⟩ := emits
    exact ⟨sorted, own, rfl, yields⟩

variable {sorter sorter' : Sorter} {reader : ρ} {reader' : ρ'} {features features' : List Feature}
  {own own' : Nat → Prop} {host host' : Host} {keys : List SortKey} {registry : OrderingRegistry}
  {comparator : FeatureComparator}

/-- Sorting gives the features in the order of the keys, and the reader it gives has the same schema. -/
theorem withSorter_spec (sound : host.disk.Sound) (yields : Yields features reader own host.disk)
    (lawful : registry.Lawful)
    (found : FeatureComparator.resolve (FeatureReader.schema reader) keys registry = .ok comparator) :
    Ensures (withSorter sorter Layout.feature.format reader keys registry) host fun result later =>
      Emits (sorter.options.select (comparator.compare.stableSort features)) (sorter.Stores features host.disk) result
          later ∧
        ∀ sorted, result = .ok sorted → sorted.schema = FeatureReader.schema reader ∧ later.disk.Sound := by
  have transitive := FeatureComparator.transCmp_of_resolve lawful found
  have sorts := @Sorter.sortBy_spec_of_restores _ _ _ comparator.compare _ _ _ sorter _ _ _ _ _ False
    Layout.feature_restores sound yields
  have kept := @Sorter.sortBy_kept _ _ _ _ _ sorter Layout.feature.format comparator.compare _ _ _ _ sound yields
  simp only [withSorter, found]
  rw [Ensures.bind_iff]
  apply Ensures.intro
  intro result later ran
  cases result with
  | error failure =>
    constructor
    · intro stores
      have succeeds := @Sorter.sortBy_succeeds_of_restores _ _ _ comparator.compare _ _ _ sorter _ _ _ _ _
        Layout.feature_restores sound yields stores
      obtain ⟨stream, impossible, -⟩ := succeeds.of_run ran
      cases impossible
    · rintro sorted ⟨⟩
  | ok stream =>
    have holds : stream.Holds False (sorter.options.select (comparator.compare.stableSort features)) later.disk :=
      sorts.of_run ran
    have kept' := kept.of_run ran stream rfl
    have given := @SortedReader.yields _ _ _ ⟨FeatureReader.schema reader, stream⟩ _ _ holds kept'
    refine ⟨⟨_, given⟩, ?_⟩
    rintro sorted ⟨⟩
    exact ⟨rfl, kept'.sound⟩

/-- With no offset and a limit that is not reached, everything is selected. -/
theorem select_of_whole {options : SorterOptions} {features : List Feature} (start : options.offset = 0)
    (ample : ∀ limit, options.limit = some limit → features.length ≤ limit) : options.select features = features := by
  rw [SorterOptions.select, start, List.drop_zero]
  cases limit_eq : options.limit with
  | none => rfl
  | some limit => exact List.take_of_length_le (ample limit limit_eq)

/-- The outcome of sorting features whose identifiers differ does not depend on their order. -/
theorem select_stableSort_of_perm (lawful : registry.Lawful) {schema : Schema}
    (found : FeatureComparator.resolve schema keys registry = .ok comparator) (perm : features.Perm features')
    (distinct : (features.map Feature.id).Nodup) (offset_eq : sorter'.options.offset = sorter.options.offset)
    (limit_eq : sorter'.options.limit = sorter.options.limit) :
    sorter'.options.select (comparator.compare.stableSort features') =
      sorter.options.select (comparator.compare.stableSort features) := by
  have transitive := FeatureComparator.transCmp_of_resolve lawful found
  have untied : ∀ a ∈ features, ∀ b ∈ features, comparator.compare a b = .eq → a = b := fun a first b second tied =>
    List.inj_on_of_nodup_map distinct first second
      (FeatureComparator.id_eq_of_compare_eq (FeatureComparator.lawful_of_resolve lawful found).2 tied)
  rw [SorterOptions.select, SorterOptions.select, offset_eq, limit_eq, Comparison.stableSort_eq_of_perm perm untied]

/-- With pages of one feature, a first feature that cannot be written makes sorting fail. -/
theorem withSorter_refusedFirst {schema : Schema} {feature : Feature} (single : sorter.options.pageSize = 1)
    (found : FeatureComparator.resolve schema keys registry = .ok comparator)
    (refused : ∀ start : Host, start.disk = host.disk →
      Ensures ((SpillStore.new sorter.options.place sorter.options.bufferSize).write Layout.feature.format [feature])
        start fun result _ => ∃ error, result.1 = .error error) :
    Ensures (withSorter sorter Layout.feature.format (⟨schema, feature :: features⟩ : MemoryReader) keys registry) host
      fun result _ => ∃ failure, result = .error failure := by
  have first : (RecordSource.next (⟨schema, feature :: features⟩ : MemoryReader)).run host =
      ((.ok (some feature), ⟨schema, features⟩), host) := rfl
  have found' : FeatureComparator.resolve (FeatureReader.schema (⟨schema, feature :: features⟩ : MemoryReader)) keys
      registry = .ok comparator := found
  simp only [withSorter, found']
  rw [Ensures.bind_iff]
  apply (Sorter.sortBy_refusedFirst single first refused).mono
  rintro result later ⟨failure, rfl⟩
  exact ⟨failure, rfl⟩

end SortedReader

end SpillSort
