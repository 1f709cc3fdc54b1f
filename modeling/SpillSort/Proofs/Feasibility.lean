import SpillSort.Proofs.Answers
import SpillSort.Proofs.SourceLifecycle

/-! # Whether features can be sorted by some keys

Keys are held against the schema before anything is read. The first key that cannot be used decides, and the reader is
closed then, without having been read. Nothing that happens later in sorting is reported as a fault of the keys.
-/

namespace SpillSort

variable {σ ρ α ε : Type} {schema : Schema} {registry : OrderingRegistry} {keys : List SortKey} {fault : Infeasible}

/-! ## Faults of keys -/

/-- Why a key cannot be used: there is no attribute of its name, or the first of that name has a type without an
ordering. -/
inductive SortKey.Offends (schema : Schema) (registry : OrderingRegistry) : SortKey → Infeasible → Prop
  | unknown {name : String} {direction : Direction} : schema.field? name = none →
    Offends schema registry (.property name direction) (.unknownProperty name)
  | unorderable {name : String} {direction : Direction} {field : Field} : schema.field? name = some field →
    registry.lookup field.type = none → Offends schema registry (.property name direction) (.unorderable name field.type)

/-- Why keys cannot be used: there are none, or the fault of the first of them that has one. -/
inductive Obstructs (schema : Schema) (registry : OrderingRegistry) : List SortKey → Infeasible → Prop
  | noKeys : Obstructs schema registry [] .noKeys
  | first {before after : List SortKey} {key : SortKey} {fault : Infeasible} :
    (∀ earlier ∈ before, ∀ other, ¬ earlier.Offends schema registry other) → key.Offends schema registry fault →
      Obstructs schema registry (before ++ key :: after) fault

/-- The field at the position of a name is the first of that name. -/
theorem Schema.field?_eq (schema : Schema) (name : String) :
    schema.field? name = (schema.fields.findIdx? (·.name = name)).map (schema.fields.getD · default) := by
  rw [field?]
  induction schema.fields with
  | nil => rfl
  | cons field fields ih =>
    rw [List.find?_cons, List.findIdx?_cons]
    split
    · next same => simp [same]
    · next differ =>
      rw [ih, differ, if_neg Bool.false_ne_true, Option.map_map]
      rfl

theorem ResolvedKey.resolve_eq_error_iff {key : SortKey} :
    resolve schema registry key = .error fault ↔ key.Offends schema registry fault := by
  cases key with
  | identifier direction => exact ⟨nofun, nofun⟩
  | property name direction =>
    have field_eq := schema.field?_eq name
    simp only [resolve]
    cases found : schema.fields.findIdx? (·.name = name) with
    | none =>
      rw [found, Option.map_none] at field_eq
      constructor
      · rintro ⟨⟩
        exact .unknown field_eq
      · rintro (_ | ⟨found', -⟩)
        · rfl
        · cases field_eq.symm.trans found'
    | some index =>
      rw [found, Option.map_some] at field_eq
      cases ordered : registry.lookup (schema.fields.getD index default).type with
      | none =>
        simp only [ordered]
        constructor
        · rintro ⟨⟩
          exact .unorderable field_eq ordered
        · rintro (missing | ⟨found', -⟩)
          · cases field_eq.symm.trans missing
          · cases field_eq.symm.trans found'
            rfl
      | some ordering =>
        simp only [ordered]
        constructor
        · rintro ⟨⟩
        · rintro (missing | ⟨found', unordered⟩)
          · cases field_eq.symm.trans missing
          · cases field_eq.symm.trans found'
            cases ordered.symm.trans unordered

theorem ResolvedKey.exists_resolve_iff {key : SortKey} :
    (∃ resolved, resolve schema registry key = .ok resolved) ↔ ∀ other, ¬ key.Offends schema registry other := by
  simp only [← resolve_eq_error_iff]
  cases resolve schema registry key <;> simp

namespace FeatureComparator

/-- Keys are refused for the fault of the first that has one. -/
theorem resolve_eq_error_iff : resolve schema keys registry = .error fault ↔ Obstructs schema registry keys fault := by
  simp only [resolve]
  split
  · next empty =>
    subst empty
    constructor
    · rintro ⟨⟩
      exact .noKeys
    · generalize same : [] = keys
      rintro (_ | _)
      · rfl
      · simp at same
  · next nonempty =>
    constructor
    · intro failed
      have failed' : keys.mapM (ResolvedKey.resolve schema registry) = .error fault := by
        cases mapped : keys.mapM (ResolvedKey.resolve schema registry) with
        | error error =>
          rw [mapped] at failed
          exact congrArg _ (Except.error.inj failed)
        | ok resolved =>
          rw [mapped] at failed
          cases failed
      obtain ⟨before, key, after, rfl, calm, found⟩ := mapM_eq_error_iff.mp failed'
      exact .first (fun earlier present => ResolvedKey.exists_resolve_iff.mp (calm earlier present))
        (ResolvedKey.resolve_eq_error_iff.mp found)
    · intro obstructs
      cases obstructs with
      | noKeys => exact absurd rfl nonempty
      | first calm offends =>
        rw [mapM_eq_error_iff.mpr ⟨_, _, _, rfl,
          fun earlier present => ResolvedKey.exists_resolve_iff.mpr (calm earlier present),
          ResolvedKey.resolve_eq_error_iff.mpr offends⟩]
        rfl

/-- A second field of a name is not looked at, nor is a key behind the first that has a fault. -/
example : resolve ⟨"roads", [⟨"shape", .geometry⟩, ⟨"lanes", .integer⟩, ⟨"shape", .string⟩]⟩
    [.identifier .descending, .property "lanes" .ascending, .property "shape" .ascending, .property "width" .ascending]
    .scalars = .error (.unorderable "shape" .geometry) := rfl

end FeatureComparator

theorem canSort_eq_false_iff : canSort schema keys registry = false ↔ ∃ fault, Obstructs schema registry keys fault := by
  simp only [canSort, ← FeatureComparator.resolve_eq_error_iff]
  cases FeatureComparator.resolve schema keys registry <;> simp [Except.isOk, Except.toBool]

/-- Keys are of no use if there are none or one of them has a fault. -/
theorem exists_obstructs_iff : (∃ fault, Obstructs schema registry keys fault) ↔
    keys = [] ∨ ∃ key ∈ keys, ∃ fault, key.Offends schema registry fault := by
  constructor
  · rintro ⟨fault, obstructs⟩
    cases obstructs with
    | noKeys => exact .inl rfl
    | first _ offends => exact .inr ⟨_, List.mem_append_right _ List.mem_cons_self, _, offends⟩
  · rintro (rfl | ⟨key, present, offending⟩)
    · exact ⟨_, .noKeys⟩
    · induction keys with
      | nil => cases present
      | cons first keys ih =>
        by_cases offends : ∃ fault, first.Offends schema registry fault
        · obtain ⟨fault, offends⟩ := offends
          exact ⟨fault, @Obstructs.first _ _ [] keys first fault (List.forall_mem_nil _) offends⟩
        · have calm : ∀ other, ¬ first.Offends schema registry other := not_exists.mp offends
          have later : key ∈ keys := by
            rcases List.mem_cons.mp present with rfl | later
            · exact absurd offending offends
            · exact later
          obtain ⟨fault, obstructs⟩ := ih later
          cases obstructs with
          | noKeys => cases later
          | @first before after key' _ calm' offends' =>
            exact ⟨fault, @Obstructs.first _ _ (first :: before) after key' fault
              (List.forall_mem_cons.mpr ⟨calm, calm'⟩) offends'⟩

theorem SortKey.exists_offends_iff {key : SortKey} : (∃ fault, key.Offends schema registry fault) ↔
    ∃ name direction, key = .property name direction ∧
      (schema.field? name = none ∨ ∃ field, schema.field? name = some field ∧ registry.lookup field.type = none) := by
  constructor
  · rintro ⟨fault, missing | ⟨found, unordered⟩⟩
    · exact ⟨_, _, rfl, .inl missing⟩
    · exact ⟨_, _, rfl, .inr ⟨_, found, unordered⟩⟩
  · rintro ⟨name, direction, rfl, missing | ⟨field, found, unordered⟩⟩
    · exact ⟨_, .unknown missing⟩
    · exact ⟨_, .unorderable found unordered⟩

theorem canSort_eq_false_iff_unfit : canSort schema keys registry = false ↔
    keys = [] ∨ ∃ name direction, SortKey.property name direction ∈ keys ∧
      (schema.field? name = none ∨ ∃ field, schema.field? name = some field ∧ registry.lookup field.type = none) := by
  rw [canSort_eq_false_iff, exists_obstructs_iff]
  refine or_congr Iff.rfl ⟨?_, ?_⟩
  · rintro ⟨key, present, offending⟩
    obtain ⟨name, direction, rfl, unfit⟩ := SortKey.exists_offends_iff.mp offending
    exact ⟨name, direction, present, unfit⟩
  · rintro ⟨name, direction, present, unfit⟩
    exact ⟨_, present, SortKey.exists_offends_iff.mpr ⟨name, direction, rfl, unfit⟩⟩

/-! ## Errors of sorting -/

/-- The error is one of the keys. -/
def SortError.BlamesKeys : SortError ε → Prop
  | .infeasible _ => True
  | _ => False

/-- The error that is answered, if any, is none of the keys. -/
def Blameless {β : Type} (answer : Except (SortError ε) β) : Prop := ∀ error, answer = .error error → ¬ error.BlamesKeys

theorem blameless_ok {β : Type} (value : β) : Blameless (.ok value : Except (SortError ε) β) := nofun

theorem blameless_error {β : Type} {error : SortError ε} (other : ¬ error.BlamesKeys) :
    Blameless (.error error : Except (SortError ε) β) := by
  rintro _ ⟨⟩
  exact other

theorem SortError.ofWrite_not_blamesKeys (error : SpillError) : ¬ (ofWrite error : SortError ε).BlamesKeys := by
  cases error <;> exact not_false

namespace Filling

variable [RecordSource σ α ε]

theorem readAll_blameless (plan : RunPlan α) (filling : Filling σ α) (host : Host) :
    Ensures (modifyGet (readAll (ε := ε) plan filling)) host fun result _ => Blameless result.1 := by
  refine readAll_rule (fun _ _ => True) (fun filling start _ => ?_) trivial
  apply Ensures.intro
  rintro ⟨answer, source⟩ later -
  match answer with
  | .error error => exact blameless_error not_false
  | .ok none => exact blameless_ok ()
  | .ok (some record) =>
    refine accept_rule (fun _ => trivial) fun _ start _ => ?_
    apply Ensures.intro
    rintro ⟨written, store⟩ last -
    cases written with
    | error error => exact blameless_error (SortError.ofWrite_not_blamesKeys error)
    | ok handle => trivial

omit [RecordSource σ α ε] in
theorem conclude_blameless (plan : RunPlan α) (filling : Filling σ α) (host : Host) :
    Ensures (filling.conclude (ε := ε) plan) host fun result _ => Blameless result := by
  simp only [conclude]
  split
  · rw [Ensures.bind_iff]
    exact Ensures.report fun _ _ => blameless_ok _
  · rw [Ensures.bind_iff]
    refine Ensures.report fun start _ => ?_
    rw [Ensures.bind_iff]
    apply Ensures.intro
    intro opened later _
    cases opened with
    | error error => exact blameless_error not_false
    | ok readers => exact blameless_ok _

theorem run_blameless (plan : RunPlan α) (source : σ) (store : SpillStore) (host : Host) :
    Ensures (run (ε := ε) plan source store) host fun result _ => Blameless result.1 := by
  simp only [run]
  rw [Ensures.bind_iff]
  apply (readAll_blameless (ε := ε) plan _ host).mono
  rintro ⟨answer, filling⟩ later fair
  cases answer with
  | error error => exact blameless_error (fair error rfl)
  | ok =>
    dsimp only
    rw [Ensures.bind_iff]
    exact (filling.conclude_blameless plan later).mono fun _ _ fair' => fair'

end Filling

namespace SortedStream

theorem settle_blameless (stream : SortedStream σ α) (answer : Option (Except SpillError α)) (host : Host) :
    Ensures (stream.settle (ε := ε) answer) host fun result _ => Blameless result.1 := by
  match answer with
  | none =>
    simp only [settle]
    rw [Ensures.bind_iff]
    exact Ensures.intro fun _ _ _ => blameless_ok none
  | some (.error error) =>
    simp only [settle]
    rw [Ensures.bind_iff]
    refine Ensures.report fun start _ => ?_
    rw [Ensures.bind_iff]
    exact Ensures.intro fun _ _ _ => blameless_error not_false
  | some (.ok record) =>
    simp only [settle]
    split
    · rw [Ensures.bind_iff]
      exact Ensures.intro fun _ _ _ => blameless_ok (some record)
    · exact blameless_ok (some record)

theorem advance_blameless (stream : SortedStream σ α) (host : Host) :
    Ensures (stream.advance (ε := ε)) host fun result _ => Blameless result.1 := by
  simp only [advance]
  split
  · exact blameless_error not_false
  · split
    · exact blameless_ok none
    · rw [Ensures.bind_iff]
      exact Ensures.intro fun _ later _ => settle_blameless _ _ later

theorem skip_blameless (stream : SortedStream σ α) (count : Nat) (host : Host) :
    Ensures (stream.skip (ε := ε) count) host fun result _ => Blameless result.1 := by
  refine skip_rule (fun _ _ => True) (fun stream start _ => ?_) (fun _ _ _ => blameless_ok ()) trivial
  apply (stream.advance_blameless start).mono
  rintro ⟨answer, stream'⟩ later fair
  match answer with
  | .error error => exact blameless_error (fair error rfl)
  | .ok none => exact blameless_ok ()
  | .ok (some record) => trivial

end SortedStream

/-- Whatever goes wrong in sorting, it is not told of the keys. -/
theorem Sorter.sortBy_not_blamesKeys [RecordSource σ α ε] [ErrorText ε] (sorter : Sorter) (format : SpillFormat α)
    (compare : Comparison α) (source : σ) (host : Host) :
    Ensures (sorter.sortBy format compare source) host fun result _ => ∀ failure, result = .error failure →
      ¬ failure.error.BlamesKeys := by
  simp only [sortBy]
  rw [Ensures.bind_iff]
  apply (Filling.run_blameless _ source _ host).mono
  rintro ⟨answer, filling⟩ later fair
  cases answer with
  | error error =>
    dsimp only
    rw [Ensures.bind_iff]
    apply (abort_error error filling later).mono
    rintro failure last rfl _ ⟨⟩
    exact fair failure.error rfl
  | ok outcome =>
    refine position_rule fun start _ => ?_
    apply (SortedStream.skip_blameless _ _ start).mono
    rintro ⟨answer, stream⟩ skipped fair'
    cases answer with
    | error error =>
      apply Ensures.intro
      rintro _ _ - failure ⟨⟩
      exact fair' error rfl
    | ok => rintro _ ⟨⟩

namespace SortedReader

variable [FeatureReader ρ ε] [ErrorText ε]

/-- A reader was closed once and asked for nothing, and what that did to the temporary store is all that was done there. -/
structure LeftUnread (reader : ρ) (host : Host) (released : Observed ρ) (later : Host) : Prop where
  events_eq : released.events = [.closed]
  disk_eq : ∃ start closed after, start.disk = host.disk ∧
    (RecordSource.close reader).run start = ((closed, released.source), after) ∧ later.disk = after.disk

theorem closeQuietly_leftUnread (reader : ρ) (host : Host) :
    Ensures (closeQuietly (Observed.mk reader [])) host fun released later => LeftUnread reader host released later := by
  simp only [closeQuietly]
  rw [Ensures.bind_iff]
  change Ensures (RecordSource.close reader >>= _) host _
  rw [Ensures.bind_iff]
  apply Ensures.intro
  rintro ⟨closed, source⟩ after ran
  rw [Ensures.pure_iff]
  cases closed with
  | error error =>
    dsimp only
    rw [Ensures.bind_iff]
    exact Ensures.report fun last same => ⟨rfl, host, _, after, rfl, ran, same⟩
  | ok => exact ⟨rfl, host, _, after, rfl, ran, rfl⟩

theorem withSorter_of_obstructs {sorter : Sorter} {format : SpillFormat Feature} {reader : ρ}
    (obstructs : Obstructs (FeatureReader.schema reader) registry keys fault) (host : Host) :
    Ensures (withSorter sorter format (Observed.mk reader []) keys registry) host fun result later =>
      ∃ source, result = .error ⟨.infeasible fault, source⟩ ∧ LeftUnread reader host source later := by
  have refused : FeatureComparator.resolve (FeatureReader.schema (Observed.mk reader [])) keys registry = .error fault :=
    FeatureComparator.resolve_eq_error_iff.mpr obstructs
  simp only [withSorter, refused]
  rw [Ensures.bind_iff]
  refine Ensures.report fun start same => ?_
  rw [Ensures.bind_iff]
  apply (closeQuietly_leftUnread reader start).mono
  rintro released later ⟨unread, start', closed, after, same', ran, kept⟩
  exact ⟨released, rfl, unread, start', closed, after, same'.trans same, ran, kept⟩

theorem withSorter_of_resolve {sorter : Sorter} {format : SpillFormat Feature} {reader : ρ}
    {comparator : FeatureComparator}
    (resolved : FeatureComparator.resolve (FeatureReader.schema reader) keys registry = .ok comparator) (host : Host) :
    Ensures (withSorter sorter format reader keys registry) host fun result _ => ∀ failure, result = .error failure →
      ¬ failure.error.BlamesKeys := by
  simp only [withSorter, resolved]
  rw [Ensures.bind_iff]
  apply (sorter.sortBy_not_blamesKeys format comparator.compare reader host).mono
  intro result later fair
  cases result with
  | error failure =>
    rintro _ ⟨⟩
    exact fair failure rfl
  | ok stream => rintro _ ⟨⟩

/-- Sorting fails because of the keys exactly if they do not fit the schema: there are none, or one of them is of an
attribute that is missing or whose first field has a type without an ordering. Then the first fault among them is told, and
the reader has been closed once and asked for nothing. All that happens on the temporary store is what the reader does
there when it is closed, so no directory is made. -/
theorem withSorter_infeasible (sorter : Sorter) (format : SpillFormat Feature) (reader : ρ) (keys : List SortKey)
    (registry : OrderingRegistry) (host : Host) :
    Ensures (withSorter sorter format (Observed.mk reader []) keys registry) host fun result later =>
      let schema := FeatureReader.schema reader
      ((∃ fault source, result = .error ⟨.infeasible fault, source⟩) ↔ canSort schema keys registry = false) ∧
      (canSort schema keys registry = false ↔ keys = [] ∨ ∃ name direction, SortKey.property name direction ∈ keys ∧
        (schema.field? name = none ∨ ∃ field, schema.field? name = some field ∧ registry.lookup field.type = none)) ∧
      ∀ fault source, result = .error ⟨.infeasible fault, source⟩ →
        Obstructs schema registry keys fault ∧ LeftUnread reader host source later := by
  cases resolved : FeatureComparator.resolve (FeatureReader.schema reader) keys registry with
  | error fault =>
    have obstructs := FeatureComparator.resolve_eq_error_iff.mp resolved
    apply (withSorter_of_obstructs obstructs host).mono
    rintro result later ⟨source, rfl, unread⟩
    refine ⟨⟨fun _ => canSort_eq_false_iff.mpr ⟨fault, obstructs⟩, fun _ => ⟨fault, source, rfl⟩⟩,
      canSort_eq_false_iff_unfit, ?_⟩
    rintro _ _ ⟨⟩
    exact ⟨obstructs, unread⟩
  | ok comparator =>
    have resolved' : FeatureComparator.resolve (FeatureReader.schema (Observed.mk reader [])) keys registry =
        .ok comparator := resolved
    apply (withSorter_of_resolve resolved' host).mono
    intro result later fair
    have never : ∀ fault source, result ≠ .error ⟨.infeasible fault, source⟩ := fun _ _ failed => fair _ failed trivial
    refine ⟨⟨?_, fun refused => ?_⟩, canSort_eq_false_iff_unfit,
      fun fault source failed => absurd failed (never fault source)⟩
    · rintro ⟨fault, source, failed⟩
      exact absurd failed (never fault source)
    · obtain ⟨fault, obstructs⟩ := canSort_eq_false_iff.mp refused
      cases resolved.symm.trans (FeatureComparator.resolve_eq_error_iff.mpr obstructs)

end SortedReader

end SpillSort
