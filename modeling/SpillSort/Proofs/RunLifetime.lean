import SpillSort.Proofs.MergeSteps
import SpillSort.Proofs.Removal
import SpillSort.Proofs.RunPartition

/-! # How long the file of a run is there

A merge asks a spilled run for the record behind the one that it takes, so a run is asked at its end, and its file
deleted, with its last record. When the runs of a source have been opened all their files are there; which pages
have records left is known by the places of the records, and they come in stable order.
-/

namespace SpillSort

variable {σ α ε : Type}

/-! ## Runs -/

namespace SpillReader

variable {reader : SpillReader α}

/-- An open reader that is to delete its file does so when it ends. -/
theorem finish_removes (opened : reader.file.isSome) (disposes : reader.disposesOnExhaust = true) (host : Host) :
    Ensures reader.finish host fun ended later =>
      ended = { reader with file := none } ∧ later.disk = (host.disk.remove reader.path).2 := by
  simp only [finish]
  rw [if_pos ⟨opened, disposes⟩, Ensures.bind_iff]
  apply (removeSpillFile_spec reader.path host).mono
  intro answer later removed
  cases answer with
  | ok => exact ⟨rfl, removed.1⟩
  | error error => exact ⟨rfl, removed.1⟩

/-- A reader that gives a record stays open, on the same file. -/
theorem readRecord_opened {file : BufferedFile} {disk : Disk} {record : α}
    (given : (reader.readRecord file disk).1 = .ok record) :
    (reader.readRecord file disk).2.file.isSome ∧ (reader.readRecord file disk).2.path = reader.path ∧
      (reader.readRecord file disk).2.disposesOnExhaust = reader.disposesOnExhaust := by
  unfold readRecord at given ⊢
  split
  · simp_all
  · split
    · simp_all
    · exact ⟨rfl, rfl, rfl⟩

end SpillReader

/-- Nothing happens but that the file of one run is removed. -/
def Disk.Disposes (directory index : Nat) (before after : Disk) : Prop :=
  after = before ∨ after = (before.remove ⟨directory, runName index⟩).2

theorem Disk.entry?_of_disposes {directory index other : Nat} {before after : Disk} (differ : other ≠ index)
    (disposes : Disposes directory index before after) :
    after.entry? ⟨directory, runName other⟩ = before.entry? ⟨directory, runName other⟩ := by
  rcases disposes with rfl | rfl
  · rfl
  · rcases entry?_remove before ⟨directory, runName index⟩ ⟨directory, runName other⟩ with same | ⟨same, -⟩
    · exact same
    · exact absurd (runName_injective (SpillPath.mk.inj same).2) differ

theorem Disk.shrinks_of_disposes {directory index : Nat} {before after : Disk}
    (disposes : Disposes directory index before after) : before.Shrinks False after := by
  rcases disposes with rfl | rfl
  · exact .refl False after
  · have within : before.Within (· = directory) (before.remove ⟨directory, runName index⟩).2 := .remove rfl
    exact within.shrinks False

namespace RunReader

variable {directory count : Nat}

/-- A run under its number, of which so many are spilled. The file of a spilled run is there, open and to be deleted
at the end, and it is gone once the run was asked at its end. -/
def Lasts (directory count index : Nat) (run : RunReader α) (lane? : Option (List (Except SpillError α)))
    (disk : Disk) : Prop :=
  match run with
  | .memory page => count ≤ index ∧ page.map .ok = lane?.getD []
  | .spilled reader => index < count ∧ reader.path = ⟨directory, runName index⟩ ∧
    match lane? with
    | none => disk.entry? reader.path = none
    | some lane => reader.file.isSome ∧ reader.disposesOnExhaust = true ∧
      (∃ node, disk.entry? reader.path = some (.file node)) ∧
        ∃ records, lane = records.map .ok ∧ reader.Tracks False (· = directory) records disk

/-- The file of a spilled run is there unless the run was asked at its end. -/
theorem Lasts.entry?_iff {index : Nat} {run : RunReader α} {lane? : Option (List (Except SpillError α))} {disk : Disk}
    (lasts : run.Lasts directory count index lane? disk) (spilled : index < count) :
    disk.entry? ⟨directory, runName index⟩ ≠ none ↔ lane? ≠ none := by
  cases run with
  | memory page => exact absurd spilled (Nat.not_lt.mpr lasts.1)
  | spilled reader =>
    obtain ⟨-, path_eq, lasts⟩ := lasts
    cases lane? with
    | none => simpa [path_eq] using lasts
    | some lane =>
      obtain ⟨-, -, ⟨node, found⟩, -⟩ := lasts
      rw [← path_eq, found]
      simp

theorem Lasts.stable {index other : Nat} {run : RunReader α} {lane? : Option (List (Except SpillError α))}
    {before after : Disk} (differ : other ≠ index) (lasts : run.Lasts directory count other lane? before)
    (disposes : before.Disposes directory index after) : run.Lasts directory count other lane? after := by
  cases run with
  | memory page => exact lasts
  | spilled reader =>
    obtain ⟨spilled, path_eq, lasts⟩ := lasts
    refine ⟨spilled, path_eq, ?_⟩
    have same := Disk.entry?_of_disposes differ disposes
    rw [← path_eq] at same
    cases lane? with
    | none => exact same.trans lasts
    | some lane =>
      obtain ⟨opened, disposing, ⟨node, found⟩, records, lane_eq, tracks⟩ := lasts
      exact ⟨opened, disposing, ⟨node, same.trans found⟩, records, lane_eq,
        tracks.stable (Disk.shrinks_of_disposes disposes)⟩

/-- A spilled run gives its records, and its file is deleted when it is asked after the last. -/
theorem pull_lasts {index : Nat} {run : RunReader α} {lane : List (Except SpillError α)} {host : Host}
    (lasts : run.Lasts directory count index (some lane) host.disk) :
    Ensures run.pull host fun result later => host.disk.Disposes directory index later.disk ∧
      result.1 = lane.head? ∧ result.2.Lasts directory count index lane.tail? later.disk := by
  match run with
  | .memory [] =>
    obtain ⟨kept, lane_eq⟩ := lasts
    obtain rfl : [] = lane := lane_eq
    exact ⟨.inl rfl, rfl, kept, rfl⟩
  | .memory (record :: page) =>
    obtain ⟨kept, lane_eq⟩ := lasts
    obtain rfl : .ok record :: page.map .ok = lane := lane_eq
    exact ⟨.inl rfl, rfl, kept, rfl⟩
  | .spilled reader =>
    obtain ⟨spilled, path_eq, opened, disposing, ⟨node, found⟩, records, rfl, tracks⟩ := lasts
    simp only [pull, SpillReader.next]
    rw [Ensures.bind_iff]
    have remaining_eq := tracks.remaining_eq
    cases records with
    | nil =>
      rw [List.length_nil] at remaining_eq
      rw [if_pos remaining_eq, Ensures.bind_iff]
      apply (SpillReader.finish_removes opened disposing host).mono
      rintro ended later ⟨rfl, removed⟩
      refine ⟨.inr (path_eq ▸ removed), rfl, spilled, path_eq, ?_⟩
      change later.disk.entry? reader.path = none
      rw [removed]
      simp only [Disk.remove, found, Disk.entry?_forget, if_true]
    | cons record records =>
      rw [if_neg (by simp [remaining_eq])]
      obtain ⟨file, file_eq⟩ := Option.isSome_iff_exists.mp opened
      obtain ⟨-, -, impossible⟩ | ⟨given, left⟩ := SpillReader.readRecord_spec tracks file_eq
      · exact impossible.elim
      · obtain ⟨opened', path_eq', disposing'⟩ := SpillReader.readRecord_opened given
        rw [file_eq]
        refine ⟨.inl rfl, congrArg some given, spilled, path_eq'.trans path_eq, opened', disposing'.trans disposing, ?_⟩
        exact ⟨⟨node, path_eq'.symm ▸ found⟩, records, rfl, left⟩

theorem plays_runs (directory count : Nat) :
    Plays (pull (α := α)) (Lasts directory count) (Disk.Disposes directory) :=
  ⟨Lasts.stable, pull_lasts⟩

end RunReader

/-! ## Pages in the order of merging -/

section Pages

variable {compare : Comparison α} {size : Nat} {records : List α}

theorem map_pageOf {β : Type} (f : α → β) (size : Nat) (records : List α) (index : Nat) :
    (pageOf size records index).map f = pageOf size (records.map f) index := by
  rw [pageOf, List.map_take, List.map_drop, pageOf]

/-- Records with their places, in stable order. -/
def sortedPlaces (compare : Comparison α) (records : List α) : List (α × Nat) :=
  (compare.byKey Prod.fst).stableSort records.zipIdx

/-- A page has a record left when so many records have been taken in stable order. -/
def PageLeft (compare : Comparison α) (size : Nat) (records : List α) (taken index : Nat) : Prop :=
  ∃ placed ∈ (sortedPlaces compare records).drop taken, placed.2 / size = index

/-- Records in pages, where the page of a record is known by its place. -/
def placing (size : Nat) (records : List α) : Tagging (α × Nat) α SpillError :=
  ⟨Prod.fst, (·.2 / size), fun _ => none, records.length / size + 1⟩

/-- The lane of the run that a page is sorted into. -/
def pageLane (compare : Comparison α) (size : Nat) (records : List α) (index : Nat) : List (Except SpillError α) :=
  (compare.stableSort (pageOf size records index)).map .ok

theorem length_sortedPlaces (compare : Comparison α) (records : List α) :
    (sortedPlaces compare records).length = records.length := by
  rw [sortedPlaces, Comparison.length_stableSort, List.length_zipIdx]

theorem div_of_mem_pageOf {placed : α × Nat} {index : Nat} (present : placed ∈ pageOf size records.zipIdx index) :
    placed.2 / size = index := by
  obtain ⟨place, found⟩ := List.getElem?_of_mem present
  rw [pageOf, List.getElem?_take] at found
  split at found
  · next inside =>
    rw [List.getElem?_drop, List.getElem?_zipIdx, Option.map_eq_some_iff] at found
    obtain ⟨record, -, rfl⟩ := found
    rw [Nat.zero_add, Nat.mul_comm, Nat.mul_add_div (Nat.zero_lt_of_lt inside), Nat.div_eq_of_lt inside, Nat.add_zero]
  · cases found

/-- Before anything is taken every full page has a record left. -/
theorem pageLeft_of_full {index : Nat} (full : index < records.length / size) :
    PageLeft compare size records 0 index := by
  have positive : 0 < size := Nat.pos_of_ne_zero fun zero => by simp [zero] at full
  have within : index * size < records.length := by
    have below := (Nat.le_div_iff_mul_le positive).mp full
    rw [Nat.succ_mul] at below
    omega
  refine ⟨(records[index * size], index * size), ?_, Nat.mul_div_cancel index positive⟩
  rw [List.drop_zero, sortedPlaces, (Comparison.perm_stableSort _ _).mem_iff, List.mk_mem_zipIdx_iff_getElem?]
  exact List.getElem?_eq_getElem within

/-- The sorted pages have the records in stable order. -/
theorem covers_pages [Std.TransCmp compare] (positive : 0 < size) :
    (placing size records).Covers compare ((List.range (records.length / size + 1)).map (pageLane compare size records))
      ((List.range (records.length / size + 1)).map fun index =>
        (compare.byKey Prod.fst).stableSort (pageOf size records.zipIdx index)) (sortedPlaces compare records) := by
  constructor
  case length_eq => simp
  case width_eq => simp [placing]
  case marks =>
    intro index lane tags at_ found
    rw [List.getElem?_map, Option.map_eq_some_iff] at at_ found
    obtain ⟨page, there, rfl⟩ := at_
    obtain ⟨page', there', rfl⟩ := found
    obtain rfl : page = page' := Option.some.inj (there.symm.trans there')
    have lane_eq : pageLane compare size records page =
        (((compare.byKey Prod.fst).stableSort (pageOf size records.zipIdx page)).map Prod.fst).map .ok := by
      rw [Comparison.map_stableSort_byKey, map_pageOf, List.zipIdx_map_fst, pageLane]
    rw [lane_eq]
    exact Tagging.marks_map (fun _ => rfl) _
  case ordered =>
    intro tags present
    obtain ⟨index, -, rfl⟩ := List.mem_map.mp present
    exact Comparison.ordered_stableSort _
  case apart =>
    intro index tags found placed present
    rw [List.getElem?_map, Option.map_eq_some_iff] at found
    obtain ⟨page, there, rfl⟩ := found
    obtain ⟨bound, page_eq⟩ := List.getElem?_eq_some_iff.mp there
    rw [List.getElem_range] at page_eq
    subst page_eq
    exact div_of_mem_pageOf ((Comparison.perm_stableSort _ _).mem_iff.mp present)
  case rest_eq =>
    have sorted : (List.range (records.length / size + 1)).map
        (fun index => (compare.byKey Prod.fst).stableSort (pageOf size records.zipIdx index)) =
          ((List.range (records.length / size + 1)).map (pageOf size records.zipIdx)).map
            (compare.byKey Prod.fst).stableSort := by rw [List.map_map]; rfl
    have whole : records.zipIdx.length ≤ (records.length / size + 1) * size := by
      have rest := Nat.mod_lt records.length positive
      have parts := Nat.div_add_mod' records.length size
      rw [List.length_zipIdx, Nat.succ_mul]
      omega
    change sortedPlaces compare records = (compare.byKey Prod.fst).stableSort _
    rw [sorted, Comparison.stableSort_flatten_stableSort, flatten_pageOf, List.take_of_length_le whole, sortedPlaces]

end Pages

/-! ## The runs when they are opened -/

namespace Filling

variable {plan : RunPlan α} {own : Nat → Prop} {filling : Filling σ α} {records : List α}

/-- The last page is what comes after the full pages. -/
theorem Numbered.lastPage_eq {disk : Disk} (numbered : filling.Numbered plan records disk)
    (cuts : filling.Cuts plan own records disk) :
    pageOf plan.pageSize records (records.length / plan.pageSize) = filling.page.toList := by
  have length_eq := cuts.length_eq
  have room := cuts.room
  rw [numbered.page_eq, cuts.length_runs, pageOf]
  apply List.take_of_length_le
  rw [List.length_drop, ← cuts.length_runs]
  omega

/-- A run that was just opened is there with its page. -/
theorem Numbered.lasts {disk : Disk} {directory index : Nat} {handle : SpillHandle} {run : RunReader α}
    (numbered : filling.Numbered plan records disk) (found : filling.runs[index]? = some handle)
    (inside : handle.path.directory = directory) (opened : Opened plan.format handle run)
    (tracks : run.Tracks False (· = directory) (plan.compare.stableSort (pageOf plan.pageSize records index)) disk) :
    run.Lasts directory filling.runs.length index (some (pageLane plan.compare plan.pageSize records index)) disk := by
  obtain ⟨file, left, rfl⟩ := opened
  obtain ⟨name_eq, holds⟩ := numbered.runs index handle found
  obtain ⟨node, -, there, -⟩ := holds.file
  have path_eq : handle.path = ⟨directory, runName index⟩ := by
    rw [← inside, ← name_eq]
  exact ⟨(List.getElem?_eq_some_iff.mp found).1, path_eq, rfl, rfl, ⟨node, there⟩, _, rfl, tracks⟩

/-- When the runs are opened all their files are there. -/
theorem conclude_lasts {host : Host} (numbered : filling.Numbered plan records host.disk)
    (cuts : filling.Cuts plan own records host.disk) (restores : plan.format.Restores) (spilled : filling.runs ≠ []) :
    Ensures (filling.conclude (ε := ε) plan) host fun result later => later.disk = host.disk ∧
      ∃ directory readers, result = .ok (.runs readers) ∧ filling.store.directory = some directory ∧
        readers.length = filling.runs.length + 1 ∧ ∀ index (run : RunReader α), readers[index]? = some run →
          run.Lasts directory filling.runs.length index (some (pageLane plan.compare plan.pageSize records index))
            later.disk := by
  refine conclude_rule (fun none_spilled => absurd none_spilled spilled) ?_
  intro _ start same
  obtain ⟨first, rest, runs_eq⟩ := List.exists_cons_of_ne_nil spilled
  have mine : filling.store.directory = some first.path.directory :=
    cuts.inside first (runs_eq ▸ List.mem_cons_self)
  have inside : ∀ handle ∈ filling.runs, handle.path.directory = first.path.directory := fun handle present =>
    Option.some.inj ((cuts.inside handle present).symm.trans mine)
  rw [← same] at numbered cuts
  have held : List.Forall₂ (fun handle lane => handle.Holds plan.format lane start.disk) filling.runs
      ((List.range filling.runs.length).map fun index => plan.compare.stableSort (pageOf plan.pageSize records index)) := by
    refine List.forall₂_iff_get.mpr ⟨by simp, ?_⟩
    intro index bound bound'
    have found := List.getElem?_eq_getElem bound
    simpa using (numbered.runs index _ found).2
  apply ((openRuns_spec False (· = first.path.directory) held inside cuts.sound restores).and
    (openRuns_opened numbered.held)).mono
  rintro answer later ⟨⟨rfl, readers, rfl, tracks⟩, opened, opened_eq, all⟩
  obtain rfl : readers = opened := Except.ok.inj opened_eq
  refine ⟨same, first.path.directory, _, rfl, mine, by simp [all.length_eq], ?_⟩
  intro index run found
  rcases Nat.lt_or_ge index readers.length with spilled | last
  · rw [List.getElem?_append_left spilled] at found
    obtain ⟨-, rfl⟩ := List.getElem?_eq_some_iff.mp found
    have known : index < filling.runs.length := all.length_eq ▸ spilled
    have tracked := (List.forall₂_iff_get.mp tracks).2 index spilled (by simpa using known)
    exact numbered.lasts (List.getElem?_eq_getElem known) (inside _ (List.getElem_mem known))
      ((List.forall₂_iff_get.mp all).2 index known spilled) (by simpa using tracked)
  · rw [List.getElem?_append_right last, List.getElem?_singleton] at found
    split at found
    · next there =>
      obtain rfl : index = records.length / plan.pageSize := by
        rw [← cuts.length_runs, all.length_eq]
        omega
      obtain rfl := Option.some.inj found
      refine ⟨Nat.le_of_eq cuts.length_runs, ?_⟩
      rw [Option.getD_some, pageLane, numbered.lastPage_eq cuts]
    · cases found

end Filling

/-- A source with a full page is cut into runs whose files are all there, and nothing else in their directory. -/
theorem Filling.run_lasts [RecordSource σ α ε] {plan : RunPlan α} {own : Nat → Prop} {records : List α} {source : σ}
    {place : Place} {bufferSize : Option Nat} {host : Host} (restores : plan.format.Restores)
    (yields : Yields records source own host.disk) (sound : host.disk.Sound) (full : plan.pageSize ≤ records.length)
    (positive : 0 < plan.pageSize) :
    Ensures (run (ε := ε) plan source (.new place bufferSize)) host fun result later => ∀ outcome,
      result.1 = .ok outcome → ∃ directory readers, outcome = .runs readers ∧
        result.2.store.directory = some directory ∧ later.disk.hasDirectory directory ∧
        readers.length = records.length / plan.pageSize + 1 ∧
        (∀ index (run : RunReader α), readers[index]? = some run →
          run.Lasts directory (records.length / plan.pageSize) index
            (some (pageLane plan.compare plan.pageSize records index)) later.disk) ∧
        ∀ name, later.disk.entry? ⟨directory, name⟩ ≠ none →
          ∃ index < records.length / plan.pageSize, name = runName index := by
  unfold run
  rw [Ensures.bind_iff]
  apply (readAll_numbered yields sound positive).mono
  rintro ⟨answer, filling⟩ later outcome
  cases answer with
  | error error => exact nofun
  | ok =>
    obtain ⟨own', cuts, numbered⟩ := outcome
    have count := cuts.length_runs
    have spilled : filling.runs ≠ [] := by
      intro none_spilled
      have some_full := Nat.div_pos full positive
      rw [← count, none_spilled] at some_full
      cases some_full
    dsimp only
    rw [Ensures.bind_iff]
    apply (conclude_lasts numbered cuts restores spilled).mono
    rintro result last ⟨same, directory, readers, rfl, mine, length_eq, lasting⟩ outcome ⟨⟩
    rw [count] at length_eq lasting
    refine ⟨directory, readers, rfl, mine, ?_, length_eq, lasting, ?_⟩
    · exact same ▸ cuts.ready.present directory mine
    · intro name present
      obtain ⟨index, known, name_eq⟩ := numbered.names ⟨directory, name⟩ mine (same ▸ present)
      exact ⟨index, count ▸ known, name_eq⟩

/-! ## The merge -/

theorem RunReader.Lasts.lodged {directory count index : Nat} {run : RunReader α}
    {lane? : Option (List (Except SpillError α))} {disk : Disk} (lasts : run.Lasts directory count index lane? disk) :
    run.Lodged (some directory) := by
  cases run with
  | memory page => trivial
  | spilled reader =>
    obtain ⟨-, path_eq, -⟩ := lasts
    change some directory = some reader.path.directory
    rw [path_eq]

/-- The merge of the runs of all pages is before all records. -/
theorem Merger.poised_pages {compare : Comparison α} [Std.TransCmp compare] {size directory : Nat} {records : List α}
    {readers : List (RunReader α)} {disk : Disk} (positive : 0 < size)
    (length_eq : readers.length = records.length / size + 1)
    (lasting : ∀ index (run : RunReader α), readers[index]? = some run →
      run.Lasts directory (records.length / size) index (some (pageLane compare size records index)) disk) :
    (Merger.new readers).Poised (RunReader.Lasts directory (records.length / size)) (placing size records) compare
      (sortedPlaces compare records) disk := by
  refine ⟨rfl, .nil, _, _, ?_, ?_, covers_pages positive⟩
  · refine (stands_new (by simpa using length_eq) ?_).congr fun _ => by simp [new]
    intro index run lane found at_
    rw [List.getElem?_map, Option.map_eq_some_iff] at at_
    obtain ⟨page, there, rfl⟩ := at_
    obtain ⟨bound, page_eq⟩ := List.getElem?_eq_some_iff.mp there
    rw [List.getElem_range] at page_eq
    subst page_eq
    exact lasting index run found
  · intro _ lane present
    obtain ⟨index, -, rfl⟩ := List.mem_map.mp present
    rw [pageLane]
    cases compare.stableSort (pageOf size records index) <;> rfl

end SpillSort
