import SpillSort.Proofs.EndCleanup
import SpillSort.Proofs.KeyOrder
import SpillSort.Proofs.LayoutReading
import SpillSort.Proofs.Saving
import SpillSort.Proofs.TableReading

/-! # What a run of the program does

A run that can read its input, use its keys and start its threads leaves the sorted table in the output, and any other
run ends before the output is made. What the output was before makes no difference, so it may be the input.
-/

namespace SpillSort

/-! ## Trees -/

namespace FileTree

variable {tree created : FileTree} {place : FilePlace} {path : String} {device : OutputDevice}

theorem put_put (tree : FileTree) (place : FilePlace) (node node' : FileNode) :
    (tree.put place node).put place node' = tree.put place node' := by
  simp only [put, ne_eq, decide_not, List.filter_cons, decide_true, Bool.not_true, Bool.false_eq_true, if_false,
    List.filter_filter, Bool.and_self]

theorem node?_put_of_ne (tree : FileTree) {place other : FilePlace} (differ : other ≠ place) (node : FileNode) :
    (tree.put place node).node? other = tree.node? other := by
  have beyond : ((place, node) :: tree.nodes.filter (·.1 ≠ place)).lookup other = tree.nodes.lookup other := by
    have filtered := Disk.lookup_filter_ne tree.nodes (fun name => decide (name ≠ place)) other
    rw [List.lookup_cons, beq_false_of_ne differ]
    simpa [differ] using filtered
  simp only [node?, put, beyond]

theorem node?_put (tree : FileTree) (below : place ≠ [root]) (node : FileNode) :
    (tree.put place node).node? place = some node := by
  simp only [node?, put, if_neg below, List.lookup_cons, beq_self_eq_true]

/-- A way over directories does not lead over a place that is none. -/
theorem walk_put (plain : tree.node? place ≠ some .directory) (node : FileNode) {start last : FilePlace}
    {names : List String} (walked : tree.walk start names = .ok last) :
    (tree.put place node).walk start names = .ok last := by
  induction names generalizing start with
  | nil => exact walked
  | cons name names ih =>
    unfold walk at walked ⊢
    split at walked
    · next there =>
      have differ : start ≠ place := by
        rintro rfl
        exact plain there
      rw [node?_put_of_ne tree differ, there]
      dsimp only
      split at walked
      · next short =>
        rw [if_pos short]
        exact ih walked
      · cases walked
    · cases walked
    · cases walked

/-- What making a file needs and does. -/
theorem create_cases (creates : tree.create path = .ok (device, created)) :
    endsInSlash path = false ∧ ∃ place, tree.locate path = .ok place ∧ tree.node? place ≠ some .directory ∧
      ((device = .file place ∧ created = tree.put place (.file [])) ∨
        ((device = .sinkhole ∨ device = .fullDevice) ∧ created = tree)) := by
  unfold create at creates
  split at creates
  · cases parent : tree.locateParent path with
    | error error =>
      rw [parent] at creates
      cases creates
    | ok place =>
      rw [parent] at creates
      cases creates
  · next plain =>
    refine ⟨eq_false_of_ne_true plain, ?_⟩
    cases located : tree.locate path with
    | error error =>
      rw [located] at creates
      cases creates
    | ok place =>
      rw [located] at creates
      refine ⟨place, rfl, ?_⟩
      dsimp only [bind, Except.bind] at creates
      split at creates
      · cases creates
      · next there =>
        cases creates
        exact ⟨by simp [there], .inr ⟨.inl rfl, rfl⟩⟩
      · next there =>
        cases creates
        exact ⟨by simp [there], .inr ⟨.inr rfl, rfl⟩⟩
      · next there =>
        cases creates
        exact ⟨by simp [there], .inl ⟨rfl, rfl⟩⟩
      · next there =>
        cases creates
        exact ⟨by simp [there], .inl ⟨rfl, rfl⟩⟩

/-- It makes no difference to what is written that the file has been emptied for it. -/
theorem store_of_create (creates : tree.create path = .ok (device, created)) (content : Bytes) :
    created.store device content = tree.store device content := by
  obtain ⟨-, place, -, -, ⟨rfl, rfl⟩ | ⟨rfl | rfl, rfl⟩⟩ := create_cases creates
  · exact put_put tree place _ _
  · rfl
  · rfl

/-- What has been written to a file that was made is found under its path. -/
theorem find_of_create (creates : tree.create path = .ok (.file place, created)) (content : Bytes) :
    (tree.store (.file place) content).find path = .ok (.file content) := by
  obtain ⟨plain, place', located, notDirectory, ⟨⟨⟩, -⟩ | ⟨nofile | nofile, -⟩⟩ := create_cases creates
  · have below : place ≠ [root] := by
      rintro rfl
      exact notDirectory rfl
    have located' : (tree.put place (.file content)).locate path = .ok place := by
      unfold locate walkFrom at located ⊢
      split at located
      · cases located
      · next nonempty =>
        rw [if_neg nonempty]
        split at located
        · cases located
        · next short =>
          rw [if_neg short]
          exact walk_put notDirectory _ located
    simp only [store, find, located', bind, Except.bind, node?_put tree below, plain, Bool.false_eq_true, false_and,
      if_false]
  · cases nofile
  · cases nofile

end FileTree

/-! ## Options -/

namespace Options

theorem exists_of_value? {α : Type} {given : List (Switch × Option String)} {switch : Switch}
    {read? : String → Option α} {value : α} (found : value? given switch read? = some (some value)) :
    ∃ text, read? text = some value := by
  unfold value? at found
  split at found
  · cases found
  · next text _ =>
    cases given : read? text with
    | none =>
      rw [given] at found
      cases found
    | some value' =>
      rw [given] at found
      cases found
      exact ⟨text, given⟩
  · cases found

/-- A page has room for a record. -/
theorem pageSize_pos {arguments : List String} {options : Options} (accepted : read arguments = .ok options) :
    0 < options.sorter.pageSize := by
  unfold read at accepted
  cases cut : Argument.readAll none arguments with
  | error refusal =>
    rw [cut] at accepted
    cases accepted
  | ok given =>
    rw [cut] at accepted
    dsimp only [bind, Except.bind] at accepted
    split at accepted
    · next options' made =>
      cases accepted
      simp only [ofGiven?, Option.bind_eq_bind, Option.bind_eq_some_iff, Option.pure_def, Option.some.injEq] at made
      obtain ⟨_, -, _, -, _, -, _, -, _, -, _, -, size?, found, _, -, _, -, _, -, _, -, _, -, rfl⟩ := made
      cases size? with
      | none => exact (by decide : 0 < standardPageSize)
      | some size =>
        obtain ⟨text, read⟩ := exists_of_value? found
        exact Nat.pos_of_ne_zero (by simpa using (Option.filter_eq_some_iff.mp read).2)
    · cases accepted

end Options

/-! ## Steps that may stop the program -/

/-- Nothing has happened since but that something was logged. -/
structure Host.Untouched (host later : Host) : Prop where
  disk_eq : later.disk = host.disk
  exhausted_eq : later.exhausted? = host.exhausted?

theorem Host.Untouched.trans {host middle later : Host} (first : host.Untouched middle)
    (second : middle.Untouched later) : host.Untouched later :=
  ⟨second.disk_eq.trans first.disk_eq, second.exhausted_eq.trans first.exhausted_eq⟩

/-- Why the threads that are asked for do not start, if any are asked for and they do not. -/
def SorterOptions.poolFault? (options : SorterOptions) (host : Host) : Option String :=
  options.threads.bind host.poolFault?

/-- A sorter is made unless its threads do not start. -/
theorem Sorter.build_rule {ε : Type} {options : SorterOptions} (positive : 0 < options.pageSize) {host : Host}
    {post : Except (SortError ε) Sorter → Host → Prop}
    (refused : ∀ reason later, options.poolFault? host = some reason → host.Untouched later →
      post (.error (.threadPool reason)) later)
    (ensured : ∀ later, options.poolFault? host = none → host.Untouched later → post (.ok ⟨options, positive⟩) later) :
    Ensures (build options) host post := by
  simp only [build, dif_pos positive]
  unfold SorterOptions.poolFault? at refused ensured
  split
  · next unthreaded =>
    rw [unthreaded] at ensured
    exact ensured host rfl ⟨rfl, rfl⟩
  · next threads asked =>
    rw [asked, Option.bind_some] at refused ensured
    rw [Ensures.bind_iff]
    change Ensures (Host.startPool threads >>= _) { host with log := _ } _
    rw [Ensures.bind_iff, Ensures.startPool_iff]
    split
    · next started => exact ensured _ started ⟨rfl, rfl⟩
    · next reason fault => exact refused reason _ fault ⟨rfl, rfl⟩

namespace Command

/-- Steps that may stop, taken apart. -/
theorem bind_rule {α β : Type} {step : StepM α} {rest : α → StepM β} {host : Host}
    {post : Except Stop β → Host → Prop}
    (first : Ensures step.run host fun answer later =>
      match answer with
      | .ok value => Ensures (rest value).run later post
      | .error stop => post (.error stop) later) :
    Ensures (step >>= rest).run host post := by
  rw [ExceptT.run_bind, Ensures.bind_iff]
  apply first.mono
  intro answer later outcome
  cases answer with
  | ok value => exact outcome
  | error stop => exact outcome

theorem report_rule {β : Type} {level : LogLevel} {text : String} {rest : StepM β} {host : Host}
    {post : Except Stop β → Host → Prop}
    (ensured : ∀ later, host.Untouched later → Ensures rest.run later post) :
    Ensures (do Host.report level text; rest : StepM β).run host post :=
  bind_rule (ensured _ ⟨rfl, rfl⟩)

theorem stopping_iff {ε α : Type} [ErrorText ε] {text : String} {step : HostM (Except ε α)} {host : Host}
    {post : Except Stop α → Host → Prop} :
    Ensures (stopping text step).run host post ↔
      Ensures step host fun answer later => post (answer.mapError (Stop.ofError text)) later := Iff.rfl

/-! ## Sorting the input -/

/-- The table that is to be sorted, with its titles read, and what its keys make of them. -/
def opened? (options : Options) (tree : FileTree) : Option (TableReader × FeatureComparator) := do
  let pieces ← (openInput tree options.input).toOption
  let reader ← (TableReader.readTitles (stem options.input) (.ofPieces pieces)).toOption
  let comparator ← (FeatureComparator.resolve reader.schema options.keys .scalars).toOption
  return (reader, comparator)

/-- The schema and the features of a table, and how they compare. -/
structure SortTask where
  schema : Schema
  features : List Feature
  comparator : FeatureComparator

/-- What a run is to sort. There is nothing if the titles, a record or the keys are faulty. -/
def task? (options : Options) (tree : FileTree) : Option SortTask := do
  let (reader, comparator) ← opened? options tree
  let features ← reader.readAll.1.toOption
  return ⟨reader.schema, features, comparator⟩

theorem task?_of_opened? {options : Options} {tree : FileTree} {reader : TableReader} {comparator : FeatureComparator}
    (opened : opened? options tree = some (reader, comparator)) :
    task? options tree = reader.readAll.1.toOption.map fun features => ⟨reader.schema, features, comparator⟩ := by
  rw [task?, opened, Option.map_eq_bind]
  rfl

/-- A page is filled with what can be read of the input. -/
def FillsPage (options : Options) (tree : FileTree) : Prop :=
  ∃ reader comparator, opened? options tree = some (reader, comparator) ∧
    options.sorter.pageSize ≤ reader.readable.length

/-- Input that cannot be read, threads that do not start and keys that do not fit stop the program before anything is
sorted. -/
theorem sortInput_rule {options : Options} {tree : FileTree} (positive : 0 < options.sorter.pageSize) {host : Host}
    {post : Except Stop (SortedReader TableReader) → Host → Prop}
    (faulty : opened? options tree = none ∨ options.sorter.poolFault? host ≠ none → ∀ text later, host.Untouched later →
      post (.error (.failure text)) later)
    (sorting : options.sorter.poolFault? host = none → ∀ reader comparator,
      opened? options tree = some (reader, comparator) → ∀ start, host.Untouched start →
      Ensures (Sorter.sortBy ⟨options.sorter, positive⟩ Layout.feature.format comparator.compare reader) start
        fun result later => ∀ last, later.Untouched last →
          match result with
          | .error failure => post (.error (Stop.ofSortError failure.error)) last
          | .ok stream => post (.ok ⟨reader.schema, stream⟩) last) :
    Ensures (sortInput options tree).run host post := by
  have unopened := fun nothing => faulty (.inl nothing)
  unfold opened? at unopened sorting
  simp only [sortInput]
  apply bind_rule
  rw [stopping_iff, Ensures.pure_iff]
  cases pieces_eq : openInput tree options.input with
  | error error =>
    rw [pieces_eq] at unopened
    exact unopened rfl _ host ⟨rfl, rfl⟩
  | ok pieces =>
    rw [pieces_eq] at unopened sorting
    dsimp only [Except.mapError]
    apply bind_rule
    rw [stopping_iff]
    simp only [TableReader.new]
    cases titles_eq : TableReader.readTitles (stem options.input) (.ofPieces pieces) with
    | error error =>
      simp only [titles_eq, Except.toOption, Option.bind_eq_bind, Option.bind_some, Option.bind_none] at unopened
      exact unopened trivial _ host ⟨rfl, rfl⟩
    | ok reader =>
      simp only [titles_eq, Except.toOption, Option.bind_eq_bind, Option.bind_some] at unopened sorting
      dsimp only
      rw [Ensures.bind_iff]
      dsimp only [Ensures.pure_iff, Except.mapError]
      apply bind_rule
      rw [stopping_iff]
      refine Sorter.build_rule positive (fun reason later fault same => ?_) fun start started same => ?_
      · have unstarted : options.sorter.poolFault? host ≠ none := fault ▸ Option.some_ne_none _
        exact faulty (.inr unstarted) _ later ⟨same.disk_eq, same.exhausted_eq⟩
      dsimp only [Except.mapError]
      refine report_rule fun start' same' => ?_
      apply bind_rule
      have untouched : host.Untouched start' := .trans ⟨same.disk_eq, same.exhausted_eq⟩ same'
      have schema_eq : FeatureReader.schema reader = reader.schema := rfl
      simp only [SortedReader.withSorter, schema_eq]
      rw [ExceptT.run_mk, Ensures.map_iff]
      cases keys_eq : FeatureComparator.resolve reader.schema options.keys .scalars with
      | error fault =>
        simp only [keys_eq, Option.bind_none] at unopened
        exact unopened trivial _ _ ⟨untouched.disk_eq, untouched.exhausted_eq⟩
      | ok comparator =>
        simp only [keys_eq, Option.bind_some] at sorting
        dsimp only
        rw [Ensures.bind_iff]
        apply (sorting started reader comparator rfl start' untouched).mono
        intro result later outcome
        cases result with
        | error failure => exact outcome later ⟨rfl, rfl⟩
        | ok stream => exact report_rule fun last same => outcome last same

theorem sortInput_spares {options : Options} {tree : FileTree} (positive : 0 < options.sorter.pageSize)
    (affordable : FillsPage options tree → Affordable options.sorter.bufferSize) : Spares (sortInput options tree).run := by
  intro host
  refine sortInput_rule positive (fun _ _ _ untouched => untouched.exhausted_eq) ?_
  intro _ reader comparator opened start untouched
  have affordable' : options.sorter.pageSize ≤ reader.readable.length → Affordable options.sorter.bufferSize :=
    fun full => affordable ⟨reader, comparator, opened, full⟩
  have spares := @Sorter.sortBy_spares _ _ _ _ _ _ TableReader.bounded TableReader.sparing ⟨options.sorter, positive⟩
    reader affordable' Layout.feature.format comparator.compare
  apply (spares start).mono
  intro result later same last untouched'
  have kept := untouched'.exhausted_eq.trans (same.trans untouched.exhausted_eq)
  cases result with
  | error failure => exact kept
  | ok stream => exact kept

/-! ## Saving and ending -/

theorem save_spares (options : Options) (sorted : SortedReader TableReader) (sink : FileSink) :
    Spares (save options sorted sink) := by
  have copied (copy : Copy (SortedReader TableReader) FileSink) : Spares (modifyGet copy.run) := by
    intro host
    refine Copy.run_rule (fun _ later => later.exhausted? = host.exhausted?) ?_ rfl
    intro copy' start same
    simp only [RecordSource.next]
    rw [Ensures.bind_iff]
    apply (copy'.source.stream.next_plain.spares start).mono
    rintro ⟨answer, stream⟩ later same'
    have kept := same'.trans same
    cases answer with
    | error error => exact kept
    | ok given =>
      cases given with
      | none => exact kept
      | some feature =>
        rw [Ensures.pure_iff]
        dsimp only
        split
        · exact kept
        · exact kept
  simp only [save]
  split
  · exact .pure _
  · refine .bind (copied _) ?_
    rintro ⟨answer, copy⟩
    cases answer with
    | error fault => cases fault <;> exact .pure _
    | ok =>
      have closing : Spares (RecordSource.close copy.source) :=
        .bind (copy.source.stream.close_spares TableReader.sparing) fun _ => .pure _
      refine .bind closing ?_
      rintro ⟨closed, source⟩
      cases closed with
      | error error => exact .bind (.pure _) fun _ => .pure _
      | ok =>
        dsimp only
        split
        · exact .pure _
        · exact .bind (.report _ _) fun _ => .pure _

theorem exitStatus_plain (answer : Except Stop Unit) : Plain (exitStatus answer) := by
  cases answer with
  | ok => exact .pure _
  | error stop =>
    cases stop with
    | failure text => exact .bind (.report _ _) fun _ => .pure _
    | bufferTooLarge => exact .pure _

theorem sortFile_spares {options : Options} {tree : FileTree} (positive : 0 < options.sorter.pageSize)
    (affordable : FillsPage options tree → Affordable options.sorter.bufferSize) : Spares (sortFile options tree) := by
  simp only [sortFile]
  refine .bind (sortInput_spares positive affordable) fun answer => ?_
  cases answer with
  | error stop => exact .bind (exitStatus_plain _).spares fun _ => .pure _
  | ok sorted =>
    dsimp only
    split
    · exact .bind (exitStatus_plain _).spares fun _ => .pure _
    · refine .bind (save_spares options sorted _) ?_
      rintro ⟨saved, sink⟩
      exact .bind (exitStatus_plain _).spares fun _ => .pure _

/-- A run whose buffer can be had comes to its end, and leaves what sorting the file leaves. -/
theorem runOn_rule {poolFault? : Nat → Option String} {arguments : List String} {tree : FileTree} {options : Options}
    (accepted : Options.read arguments = .ok options)
    (affordable : FillsPage options tree → Affordable options.sorter.bufferSize) {post : UInt32 → FileTree → Disk → Prop}
    (ensured : Ensures (sortFile options tree) (.start (temporaryStore tree options.sorter.place) poolFault?)
      fun result later => post result.1 result.2 later.disk) :
    ∃ status, (runOn poolFault? arguments tree).status = some status ∧
      post status (runOn poolFault? arguments tree).tree (runOn poolFault? arguments tree).disk := by
  have spared := sortFile_spares (Options.pageSize_pos accepted) affordable
    (.start (temporaryStore tree options.sorter.place) poolFault?)
  simp only [runOn, accepted]
  generalize ran : (sortFile options tree).run (.start (temporaryStore tree options.sorter.place) poolFault?) = result
  obtain ⟨⟨status, tree'⟩, host⟩ := result
  have unexhausted : host.exhausted? = none := spared.of_run ran
  simp only [outcomeOn, unexhausted]
  exact ⟨status, rfl, ensured.of_run ran⟩

/-! ## What is to be sorted -/

/-- The features in stable order, less the offset and up to the limit. -/
def SortTask.result (task : SortTask) (options : SorterOptions) : List Feature :=
  options.select (task.comparator.compare.stableSort task.features)

/-- Nothing keeps a run from spilling what it has to: if a page is filled a directory can be made in the place and a
write buffer can be had, and every feature of a full page can be stored. -/
structure Storable (options : Options) (tree : FileTree) : Prop where
  place : FillsPage options tree → (temporaryStore tree options.sorter.place).refused.lookup options.sorter.place = none
  buffer : FillsPage options tree → bufferCapacity options.sorter.bufferSize ≤ BufferedFile.capacityLimit
  fits : ∀ task, task? options tree = some task → ∀ feature ∈ options.sorter.spilled task.features,
    Layout.feature.format.Fits feature

theorem resolve_of_opened? {options : Options} {tree : FileTree} {reader : TableReader} {comparator : FeatureComparator}
    (opened : opened? options tree = some (reader, comparator)) :
    FeatureComparator.resolve reader.schema options.keys .scalars = .ok comparator := by
  simp only [opened?, Option.bind_eq_bind, Option.bind_eq_some_iff, Option.pure_def, Option.some.injEq, Prod.mk.injEq] at opened
  obtain ⟨_, -, _, -, comparator', resolved, rfl, rfl⟩ := opened
  cases keys_eq : FeatureComparator.resolve _ options.keys .scalars with
  | error fault =>
    rw [keys_eq] at resolved
    cases resolved
  | ok comparator'' =>
    rw [keys_eq] at resolved
    cases resolved
    rfl

/-- What is to be sorted comes from a table whose features could all be read. -/
theorem exists_of_task? {options : Options} {tree : FileTree} {task : SortTask} (given : task? options tree = some task) :
    ∃ reader, opened? options tree = some (reader, task.comparator) ∧ reader.schema = task.schema ∧
      reader.readAll.1 = .ok task.features := by
  cases opened : opened? options tree with
  | none =>
    rw [task?, opened] at given
    cases given
  | some found =>
    obtain ⟨reader, comparator⟩ := found
    rw [task?_of_opened? opened] at given
    cases all : reader.readAll.1 with
    | error error =>
      rw [all] at given
      cases given
    | ok features =>
      rw [all] at given
      cases given
      exact ⟨reader, rfl, rfl, all⟩

theorem temporaryStore_sound (tree : FileTree) (place : Place) : (temporaryStore tree place).Sound := by
  cases place with
  | standard => exact Disk.sound_empty
  | named path => exact ⟨nofun, fun _ present => absurd rfl present, nofun⟩

theorem Stop.exists_of_lacksBuffer_eq_false {error : SortError TableError} (there : error.lacksBuffer = false) :
    ∃ text, Stop.ofSortError error = .failure text := by
  unfold ofSortError
  split
  · cases there
  · exact ⟨_, rfl⟩

/-- Where there is nothing to sort, or the threads do not start, the program stops. -/
theorem sortInput_of_none {options : Options} {tree : FileTree} (positive : 0 < options.sorter.pageSize) {host : Host}
    (nothing : task? options tree = none ∨ options.sorter.poolFault? host ≠ none) :
    Ensures (sortInput options tree).run host fun result _ => ∃ stop, result = .error stop := by
  refine sortInput_rule positive (fun _ _ _ _ => ⟨_, rfl⟩) fun started reader comparator opened start _ => ?_
  replace nothing := nothing.resolve_right (absurd started)
  have unreadable : ∃ error, reader.readAll.1 = .error error := by
    cases all : reader.readAll.1 with
    | error error => exact ⟨error, rfl⟩
    | ok features =>
      rw [task?_of_opened? opened, all] at nothing
      cases nothing
  have fails := @Sorter.sortBy_fails _ _ _ comparator.compare _ _ ⟨options.sorter, positive⟩ Layout.feature.format _ _
    (Filling.readAll_of_unreadable _ unreadable start)
  apply fails.mono
  rintro result later ⟨failure, rfl⟩ last -
  exact ⟨_, rfl⟩

/-- Where a write buffer can be had, or is not needed, only failures stop the program. -/
theorem sortInput_buffered {options : Options} {tree : FileTree} (positive : 0 < options.sorter.pageSize)
    (buffered : FillsPage options tree → bufferCapacity options.sorter.bufferSize ≤ BufferedFile.capacityLimit)
    (host : Host) :
    Ensures (sortInput options tree).run host fun result _ => ∀ stop, result = .error stop →
      ∃ text, stop = .failure text := by
  refine sortInput_rule positive ?_ fun _ reader comparator opened start _ => ?_
  · rintro - text later - _ ⟨⟩
    exact ⟨text, rfl⟩
  have buffered' : options.sorter.pageSize ≤ reader.readable.length →
      bufferCapacity options.sorter.bufferSize ≤ BufferedFile.capacityLimit :=
    fun full => buffered ⟨reader, comparator, opened, full⟩
  have there := @Sorter.sortBy_buffered _ _ _ _ _ _ TableReader.bounded ⟨options.sorter, positive⟩ reader buffered'
    Layout.feature.format comparator.compare start
  apply there.mono
  intro result later there last _
  cases result with
  | ok stream => exact nofun
  | error failure =>
    rintro _ ⟨⟩
    exact Stop.exists_of_lacksBuffer_eq_false (there failure rfl)

/-- What there is to sort is sorted. The directory of the runs is there then, if there are any and none is skipped. -/
theorem sortInput_of_some {options : Options} {tree : FileTree} (positive : 0 < options.sorter.pageSize)
    (storable : Storable options tree) {task : SortTask} (given : task? options tree = some task) {host : Host}
    (store_eq : host.disk = temporaryStore tree options.sorter.place) (started : options.sorter.poolFault? host = none) :
    Ensures (sortInput options tree).run host fun result later => ∃ sorted, result = .ok sorted ∧
      (sorted.schema = task.schema ∧ sorted.stream.Unspoilt (task.result options.sorter) later.disk) ∧
        (options.sorter.pageSize ≤ task.features.length → options.sorter.offset = 0 →
          ∃ directory, later.disk.hasDirectory directory) := by
  refine sortInput_rule positive ?_ fun _ reader comparator opened start untouched => ?_
  · rintro (unopened | fault)
    · rw [task?, unopened] at given
      cases given
    · exact absurd started fault
  cases all : reader.readAll.1 with
  | error error =>
    rw [task?_of_opened? opened, all] at given
    cases given
  | ok features =>
    have given' := given
    rw [task?_of_opened? opened, all] at given'
    cases given'
    have lawful : Std.TransCmp comparator.compare :=
      FeatureComparator.transCmp_of_resolve OrderingRegistry.lawful_scalars (resolve_of_opened? opened)
    have disk_eq : start.disk = temporaryStore tree options.sorter.place := untouched.disk_eq.trans store_eq
    have sound : start.disk.Sound := disk_eq ▸ temporaryStore_sound tree options.sorter.place
    have yields : Yields features reader (fun _ => False) start.disk := TableReader.yields_of_readAll all start.disk
    have writable : options.sorter.spilled features = [] ∨
        (SpillStore.new options.sorter.place options.sorter.bufferSize).Accepts Layout.feature.format
          (options.sorter.spilled features) start.disk := by
      rcases Nat.lt_or_ge features.length options.sorter.pageSize with few | full
      · exact .inl (SorterOptions.spilled_of_few few)
      · have fills : FillsPage options tree :=
          ⟨reader, comparator, opened, (TableReader.readable_of_readAll all).symm ▸ full⟩
        refine .inr ⟨?_, storable.buffer fills, storable.fits _ given⟩
        rw [disk_eq]
        exact storable.place fills
    have succeeds := @Sorter.sortBy_succeeds_of_restores _ _ _ comparator.compare _ _ _ ⟨options.sorter, positive⟩ _ _ _
      _ _ Layout.feature_restores sound yields writable
    have housed := Sorter.sortBy_housed (ε := TableError) ⟨options.sorter, positive⟩ Layout.feature.format
      comparator.compare reader start
    have removable := @Sorter.sortBy_removable _ _ _ _ _ ⟨options.sorter, positive⟩ Layout.feature.format
      comparator.compare _ _ _ _ sound yields
    have spilled : Ensures (Sorter.sortBy ⟨options.sorter, positive⟩ Layout.feature.format comparator.compare reader) start
        fun result later => options.sorter.pageSize ≤ features.length → options.sorter.offset = 0 → ∀ stream,
          result = .ok stream → ∃ directory, stream.store.directory = some directory ∧ later.disk.hasDirectory directory :=
      Ensures.intro fun _ _ ran full nothing => (Sorter.sortBy_spilled sound yields full nothing).of_run ran
    apply (((succeeds.and housed).and removable).and spilled).mono
    rintro result later ⟨⟨⟨⟨stream, rfl, holds⟩, housed⟩, removable⟩, spilled⟩ last untouched'
    rw [untouched'.disk_eq]
    refine ⟨_, rfl, ⟨rfl, holds, housed stream rfl, removable stream rfl⟩, fun full nothing => ?_⟩
    obtain ⟨directory, -, there⟩ := spilled full nothing stream rfl
    exact ⟨directory, there⟩

/-- What there is to sort in a table with some rows of cells. -/
theorem task?_cellsText {options : Options} {tree : FileTree} {schema : Schema} {rows : List (List String)}
    {features : List Feature} (found : tree.find options.input = .ok (.file (cellsText schema rows)))
    (read : rows.mapM (Feature.ofCells ⟨stem options.input, schema.fields⟩) = .ok features)
    (even : ∀ cells ∈ rows, cells.length = schema.fields.length + 1) {comparator : FeatureComparator}
    (resolved : FeatureComparator.resolve ⟨stem options.input, schema.fields⟩ options.keys .scalars = .ok comparator) :
    task? options tree = some ⟨⟨stem options.input, schema.fields⟩, features, comparator⟩ := by
  obtain ⟨text, text_eq⟩ := TableReader.cellsText_eq_cons schema rows
  have pieces_eq : openInput tree options.input = .ok ([cellsText schema rows].map .ok) := by
    rw [openInput, found, text_eq]
    rfl
  obtain ⟨reader, titles_eq, schema_eq, all⟩ := TableReader.readTitles_cellsText (stem options.input) read even
    List.flatten_singleton
  have opened : opened? options tree = some (reader, comparator) := by
    rw [opened?, pieces_eq]
    simp only [Except.toOption, Option.bind_eq_bind, Option.bind_some]
    rw [titles_eq]
    simp only [Option.bind_some]
    rw [schema_eq, resolved]
    rfl
  rw [task?_of_opened? opened, all, schema_eq]
  rfl

/-- What there is to sort in a table that was written. -/
theorem task?_tableText {options : Options} {tree : FileTree} {schema : Schema} {features : List Feature}
    (found : tree.find options.input = .ok (.file (tableText schema features)))
    (fits : ∀ feature ∈ features, feature.Fits schema.fields) {comparator : FeatureComparator}
    (resolved : FeatureComparator.resolve ⟨stem options.input, schema.fields⟩ options.keys .scalars = .ok comparator) :
    task? options tree =
      some ⟨⟨stem options.input, schema.fields⟩, features.map (·.settled schema.fields), comparator⟩ := by
  rw [tableText_eq_cellsText] at found
  exact task?_cellsText found (@mapM_ofCells_cells ⟨stem options.input, schema.fields⟩ _ fits)
    (forall_length_cells schema.fields.length features) resolved

/-! ## The program -/

theorem sortFile_of_none {options : Options} {tree : FileTree} (positive : 0 < options.sorter.pageSize)
    (buffered : FillsPage options tree → bufferCapacity options.sorter.bufferSize ≤ BufferedFile.capacityLimit) {host : Host}
    (nothing : task? options tree = none ∨ options.sorter.poolFault? host ≠ none) :
    Ensures (sortFile options tree) host fun result _ => result.1 = 1 ∧ result.2 = tree := by
  simp only [sortFile]
  rw [Ensures.bind_iff]
  apply ((sortInput_of_none positive nothing).and (sortInput_buffered positive buffered host)).mono
  rintro answer later ⟨⟨stop, rfl⟩, failure⟩
  obtain ⟨text, rfl⟩ := failure stop rfl
  exact ⟨rfl, rfl⟩

theorem sortFile_of_some {options : Options} {tree created : FileTree} {device : OutputDevice}
    (positive : 0 < options.sorter.pageSize) (storable : Storable options tree)
    (creates : tree.create options.output = .ok (device, created)) (room : device ≠ .fullDevice) {task : SortTask}
    (given : task? options tree = some task) {host : Host} (store_eq : host.disk = temporaryStore tree options.sorter.place)
    (started : options.sorter.poolFault? host = none) :
    Ensures (sortFile options tree) host fun result _ => result.1 = 0 ∧
      result.2 = tree.store device (tableText task.schema (task.result options.sorter)) := by
  simp only [sortFile]
  rw [Ensures.bind_iff]
  apply (sortInput_of_some positive storable given store_eq started).mono
  rintro answer later ⟨sorted, rfl, ⟨schema_eq, unspoilt⟩, -⟩
  dsimp only
  rw [creates, Ensures.bind_iff]
  apply (@save_spec options sorted _ (.new device) later room rfl unspoilt).mono
  rintro ⟨answer, sink⟩ last ⟨rfl, written⟩
  refine ⟨rfl, ?_⟩
  change created.store device sink.written = _
  rw [FileTree.store_of_create creates, written, schema_eq]

section

variable {poolFault? : Nat → Option String} {arguments : List String} {tree created : FileTree} {options : Options}
  {device : OutputDevice} {task : SortTask}

theorem runOn_of_none (accepted : Options.read arguments = .ok options)
    (buffered : FillsPage options tree → bufferCapacity options.sorter.bufferSize ≤ BufferedFile.capacityLimit)
    (nothing : task? options tree = none ∨ options.sorter.threads.bind poolFault? ≠ none) :
    (runOn poolFault? arguments tree).status = some 1 ∧ (runOn poolFault? arguments tree).tree = tree := by
  obtain ⟨status, status_eq, rfl, tree_eq⟩ := @runOn_rule poolFault? _ tree _ accepted
    (fun fills => .inl (buffered fills)) (fun status tree' _ => status = 1 ∧ tree' = tree)
    (sortFile_of_none (Options.pageSize_pos accepted) buffered nothing)
  exact ⟨status_eq, tree_eq⟩

theorem runOn_of_some (accepted : Options.read arguments = .ok options) (storable : Storable options tree)
    (creates : tree.create options.output = .ok (device, created)) (room : device ≠ .fullDevice)
    (given : task? options tree = some task) (started : options.sorter.threads.bind poolFault? = none) :
    (runOn poolFault? arguments tree).status = some 0 ∧
      (runOn poolFault? arguments tree).tree = tree.store device (tableText task.schema (task.result options.sorter)) ∧
      ∀ place, device = .file place → (runOn poolFault? arguments tree).tree.find options.output =
        .ok (.file (tableText task.schema (task.result options.sorter))) := by
  obtain ⟨status, status_eq, rfl, tree_eq⟩ := @runOn_rule poolFault? _ tree _ accepted
    (fun fills => .inl (storable.buffer fills)) (fun status tree' _ => status = 0 ∧ tree' = _)
    (sortFile_of_some (Options.pageSize_pos accepted) storable creates room given rfl started)
  refine ⟨status_eq, tree_eq, ?_⟩
  rintro place rfl
  rw [tree_eq]
  exact FileTree.find_of_create creates _

theorem run_of_some (accepted : Options.read arguments = .ok options) (storable : Storable options tree)
    (creates : tree.create options.output = .ok (device, created)) (room : device ≠ .fullDevice)
    (given : task? options tree = some task) :
    (run arguments tree).status = some 0 ∧
      (run arguments tree).tree = tree.store device (tableText task.schema (task.result options.sorter)) ∧
      ∀ place, device = .file place → (run arguments tree).tree.find options.output =
        .ok (.file (tableText task.schema (task.result options.sorter))) :=
  runOn_of_some accepted storable creates room given (Option.bind_fun_none _)

/-- A run whose threads start, on a table whose titles, records and keys are in order, succeeds and leaves in the output
the text of the features in stable order, less the offset and up to the limit. Any other run has status one and leaves all
files as they are. Both hold if nothing keeps it from spilling what it has to and the output has room; the output may be
the input. -/
theorem run_sorts_table (accepted : Options.read arguments = .ok options) (storable : Storable options tree)
    (creates : tree.create options.output = .ok (device, created)) (room : device ≠ .fullDevice) :
    match options.sorter.threads.bind poolFault?, task? options tree with
    | none, some task => (runOn poolFault? arguments tree).status = some 0 ∧
        (runOn poolFault? arguments tree).tree = tree.store device (tableText task.schema (task.result options.sorter)) ∧
        ∀ place, device = .file place → (runOn poolFault? arguments tree).tree.find options.output =
          .ok (.file (tableText task.schema (task.result options.sorter)))
    | _, _ => (runOn poolFault? arguments tree).status = some 1 ∧ (runOn poolFault? arguments tree).tree = tree := by
  cases fault : options.sorter.threads.bind poolFault? with
  | some reason => exact runOn_of_none accepted storable.buffer (.inr (fault ▸ Option.some_ne_none reason))
  | none =>
    cases given : task? options tree with
    | none => exact runOn_of_none accepted storable.buffer (.inl given)
    | some task => exact runOn_of_some accepted storable creates room given fault

end

/-- A working directory with a table of two features in it. -/
def sampleTree : FileTree :=
  ⟨[(["t", FileTree.root], .file (tableText ⟨"t", [⟨"n", .integer⟩]⟩ [⟨"b", [.integer 2]⟩, ⟨"a", [.integer 1]⟩]))],
    [FileTree.root]⟩

/-- Sorting that table into some file. -/
def sampleOptions (output : String) (sorter : SorterOptions) : Options :=
  ⟨"t", output, [.property "n" .ascending], some .info, sorter⟩

theorem task?_sampleTree (output : String) (sorter : SorterOptions) :
    task? (sampleOptions output sorter) sampleTree =
      some ⟨⟨"t", [⟨"n", .integer⟩]⟩, [⟨"b", [.integer 2]⟩, ⟨"a", [.integer 1]⟩],
        ⟨[.property 0 .ascending Value.compareIntegers], true⟩⟩ := by
  have fits (id : String) (n : Int64) (named : id ≠ "") : Feature.Fits [⟨"n", .integer⟩] ⟨id, [.integer n]⟩ := by
    refine ⟨named, ?_⟩
    rintro (_ | index) field ⟨⟩
    exact ⟨.inr rfl, trivial⟩
  have resolved : FeatureComparator.resolve ⟨"t", [⟨"n", .integer⟩]⟩ [.property "n" .ascending] .scalars =
      .ok ⟨[.property 0 .ascending Value.compareIntegers], true⟩ := rfl
  have found : sampleTree.find "t" =
      .ok (.file (tableText ⟨"t", [⟨"n", .integer⟩]⟩ [⟨"b", [.integer 2]⟩, ⟨"a", [.integer 1]⟩])) := rfl
  have stem_eq : stem "t" = "t" := rfl
  have given := @task?_tableText (sampleOptions output sorter) _ _ _ found ?_ _ resolved
  · rw [given, sampleOptions, stem_eq]
    rfl
  intro feature present
  rcases List.mem_pair.mp present with rfl | rfl
  · exact fits _ _ (by decide)
  · exact fits _ _ (by decide)

/-- The two features can be spilled one by one. -/
theorem storable_sampleTree (output : String) :
    Storable (sampleOptions output { SorterOptions.standard with pageSize := 1 }) sampleTree := by
  have buffered : bufferCapacity none ≤ BufferedFile.capacityLimit := by decide
  refine ⟨fun _ => rfl, fun _ => buffered, fun task given => ?_⟩
  cases (task?_sampleTree output { SorterOptions.standard with pageSize := 1 }).symm.trans given
  intro feature present
  rcases List.mem_pair.mp (List.mem_of_mem_take present) with rfl | rfl
  · exact ⟨_, rfl, by decide⟩
  · exact ⟨_, rfl, by decide⟩

/-- Two features in pages of one, sorted in place. -/
theorem run_sorts_table_sample :
    (run ["-i", "t", "-o", "t", "-s", "n", "-p", "1"] sampleTree).status = some 0 ∧
      (run ["-i", "t", "-o", "t", "-s", "n", "-p", "1"] sampleTree).tree.find "t" =
        .ok (.file (tableText ⟨"t", [⟨"n", .integer⟩]⟩ [⟨"a", [.integer 1]⟩, ⟨"b", [.integer 2]⟩])) := by
  have sorted := @run_sorts_table (fun _ => none) ["-i", "t", "-o", "t", "-s", "n", "-p", "1"] sampleTree _
    (sampleOptions "t" { SorterOptions.standard with pageSize := 1 }) (.file ["t", FileTree.root]) rfl
    (storable_sampleTree "t") rfl nofun
  rw [task?_sampleTree "t" { SorterOptions.standard with pageSize := 1 }] at sorted
  obtain ⟨status_eq, -, found⟩ := sorted
  have result_eq : Comparison.stableSort (FeatureComparator.compare ⟨[.property 0 .ascending Value.compareIntegers], true⟩)
      [⟨"b", [.integer 2]⟩, ⟨"a", [.integer 1]⟩] = ([⟨"a", [.integer 1]⟩, ⟨"b", [.integer 2]⟩] : List Feature) := by
    simp +decide [Comparison.stableSort, List.mergeSort]
  refine ⟨status_eq, (found _ rfl).trans ?_⟩
  exact congrArg (fun features => Except.ok (FileNode.file (tableText ⟨"t", [⟨"n", .integer⟩]⟩ features))) result_eq

/-- A page that is full with its first record cannot be written without a buffer. -/
theorem sortFile_of_unbuffered {options : Options} {tree : FileTree} (single : options.sorter.pageSize = 1)
    (lacking : BufferedFile.capacityLimit < bufferCapacity options.sorter.bufferSize) {task : SortTask}
    (given : task? options tree = some task) (some_feature : task.features ≠ []) (host : Host) :
    Ensures (sortFile options tree) host fun result _ => result.1 ≠ 0 := by
  have positive : 0 < options.sorter.pageSize := by omega
  have stops : Ensures (sortInput options tree).run host fun result _ => ∃ stop, result = .error stop := by
    refine sortInput_rule positive (fun _ _ _ _ => ⟨_, rfl⟩) fun _ reader comparator opened start _ => ?_
    rw [task?_of_opened? opened] at given
    cases all : reader.readAll.1 with
    | error error =>
      rw [all] at given
      cases given
    | ok features =>
      rw [all] at given
      cases given
      obtain ⟨feature, others, rfl⟩ := List.exists_cons_of_ne_nil some_feature
      obtain ⟨reader', first, -⟩ := TableReader.next_of_readAll_cons all
      have first' : (RecordSource.next reader).run start = ((.ok (some feature), reader'), start) := by
        rw [← first]
        rfl
      obtain ⟨error, refused⟩ := @SpillStore.dump_of_unbuffered _ (.new options.sorter.place options.sorter.bufferSize)
        lacking Layout.feature.format [feature]
      have fails := @Sorter.sortBy_refusedFirst _ _ _ comparator.compare _ _ ⟨options.sorter, positive⟩
        Layout.feature.format _ _ _ _ single first' fun start _ => SpillStore.write_refused refused start
      apply fails.mono
      rintro result later ⟨failure, rfl⟩ last -
      exact ⟨_, rfl⟩
  simp only [sortFile]
  rw [Ensures.bind_iff]
  apply stops.mono
  rintro answer later ⟨stop, rfl⟩
  cases stop with
  | failure text => exact (by decide : (1 : UInt32) ≠ 0)
  | bufferTooLarge => exact (by decide : (101 : UInt32) ≠ 0)

/-- Without memory for the write buffer a run fails though its input and its keys are in order and both places can be
written to. -/
theorem run_unbuffered :
    ∃ options task created, Options.read ["-i", "t", "-o", "o", "-s", "n", "-p", "1", "--rw-buf-size",
        "18446744073709551615"] = .ok options ∧
      task? options sampleTree = some task ∧
      sampleTree.create options.output = .ok (.file ["o", FileTree.root], created) ∧
      (temporaryStore sampleTree options.sorter.place).refused = [] ∧
      (run ["-i", "t", "-o", "o", "-s", "n", "-p", "1", "--rw-buf-size", "18446744073709551615"] sampleTree).status ≠
        some 0 := by
  have accepted : Options.read ["-i", "t", "-o", "o", "-s", "n", "-p", "1", "--rw-buf-size", "18446744073709551615"] =
      .ok (sampleOptions "o" { SorterOptions.standard with pageSize := 1, bufferSize := some (2 ^ 64 - 1) }) := rfl
  have given := task?_sampleTree "o" { SorterOptions.standard with pageSize := 1, bufferSize := some (2 ^ 64 - 1) }
  refine ⟨_, _, _, accepted, given, rfl, rfl, ?_⟩
  obtain ⟨status, status_eq, failed⟩ := @runOn_rule (fun _ => none) _ sampleTree _ accepted (fun _ => .inr (by decide))
    (fun status _ _ => status ≠ 0) (sortFile_of_unbuffered rfl (by decide) given (List.cons_ne_nil _ _) _)
  rw [run, status_eq]
  exact fun succeeded => failed (Option.some.inj succeeded)

end Command

end SpillSort
