import SpillSort.Proofs.CommandRun

/-! # What a run leaves on the temporary store

The stream of a run is closed when the output has been written, and has given up its directory where it fails. What is
left open is a stream whose output cannot be made, or has no room: the program ends there as it stands, and the
directory of the runs stays.
-/

namespace SpillSort

/-! ## Stores without anything -/

/-- There is no directory, and no name. -/
structure Disk.Bare (disk : Disk) : Prop where
  directories : ∀ directory, disk.hasDirectory directory = false
  names : ∀ path, disk.entry? path = none

theorem NothingLeft.bare {directory : Option Nat} {before after : Disk}
    (nothing : NothingLeft (fun _ => False) directory before after) (bare : before.Bare) : after.Bare := by
  have directories (other : Nat) : after.hasDirectory other = false := by
    rw [Bool.eq_false_iff]
    intro present
    rcases nothing.known other present with earlier | theirs
    · rw [bare.directories other] at earlier
      cases earlier
    · exact theirs
  refine ⟨directories, fun path => ?_⟩
  by_contra there
  have inside := nothing.names path there
  rw [directories] at inside
  cases inside

theorem NothingLeft.of_same {before after : Disk} (sound : before.Sound) (same : after = before) :
    NothingLeft (fun _ => False) none before after where
  known _ present := .inl (same ▸ present)
  gone := nofun
  names := (same ▸ sound : after.Sound).inside

/-! ## Copying -/

/-- The directories of a table. There are none. -/
def TableReader.owned (_ : TableReader) (_ : Nat) : Prop := False

theorem SortedStream.Cares.mono {σ α : Type} {own : σ → Nat → Prop} {before after : SortedStream σ α} {failed failed' : Prop}
    {disk disk' : Disk} (cares : Cares own before after failed disk disk') (implies : failed' → failed) :
    Cares own before after failed' disk disk' :=
  { cares with failed := cares.failed ∘ implies }

variable {ω : Type}

/-- Where copying fails with its stream the stream has ended. -/
theorem Copy.run_cares [Sink ω] {copy : Copy (SortedReader TableReader) ω} {host : Host}
    (tidy : copy.source.stream.Tidy) (sound : host.disk.Sound) :
    Ensures (modifyGet copy.run) host fun result later =>
      SortedStream.Cares TableReader.owned copy.source.stream result.2.source.stream
        (∃ error, result.1 = .error (.reading error)) host.disk later.disk := by
  refine run_rule (fun copy' later =>
    SortedStream.Cares TableReader.owned copy.source.stream copy'.source.stream False host.disk later.disk) ?_
    (.refl tidy sound)
  intro copy' start cares
  simp only [RecordSource.next]
  rw [Ensures.bind_iff]
  apply ((SortedStream.next_minds cares.tidy cares.minds.sound).and (copy'.source.stream.next_onward start)).mono
  rintro ⟨answer, stream⟩ later ⟨minds, onward⟩
  have asked : SortedStream.Cares TableReader.owned copy'.source.stream stream (∃ error, answer = .error error) start.disk
      later.disk := minds.cares onward id
  have both := cares.trans asked
  cases answer with
  | error error => exact both.mono fun _ => .inr ⟨error, rfl⟩
  | ok given =>
    cases given with
    | none =>
      apply both.mono
      rintro ⟨_, ⟨⟩⟩
    | some feature =>
      rw [Ensures.pure_iff]
      dsimp only
      split
      · apply both.mono
        rintro ⟨_, ⟨⟩⟩
      · exact both.mono False.elim

/-- A sink that takes everything does not make copying fail. -/
theorem Copy.run_takes {ρ ε : Type} [RecordSource ρ Feature ε] [Sink ω] [LosslessSink ω] {copy : Copy ρ ω} {front : Bytes}
    (within : copy.writer.records.Within front (some (copy.writer.attributes + 1)) []) (host : Host) :
    Ensures (modifyGet (copy.run (ε := ε))) host fun result _ => ∀ error, result.1 ≠ .error (.writing error) := by
  have copied := @run_lossless ρ ω ε _ _ _ (fun _ _ _ => True) (fun _ _ _ _ => True) ?_ copy host front trivial within
  · apply copied.mono
    rintro ⟨_, copy'⟩ later ⟨answer, features, rfl, -⟩
    cases answer <;> rintro _ ⟨⟩
  · intro features source start _
    apply Ensures.intro
    rintro ⟨answer, source'⟩ later -
    cases answer with
    | error error => trivial
    | ok given => cases given <;> trivial

namespace Command

/-- Saving to a file that takes everything ends the stream, whether or not it fails. -/
theorem save_cares (options : Options) {sorted : SortedReader TableReader} {sink : FileSink} {host : Host}
    (tidy : sorted.stream.Tidy) (sound : host.disk.Sound) :
    Ensures (save options sorted sink) host fun _ later => ∃ stream,
      SortedStream.Cares TableReader.owned sorted.stream stream
        (LosslessSink.Takes sink ∧ LosslessSink.taken sink = []) host.disk later.disk := by
  simp only [save]
  split
  · next error writer untitled =>
    refine ⟨sorted.stream, (SortedStream.Cares.refl tidy sound).mono ?_⟩
    rintro ⟨takes, fresh⟩
    obtain ⟨records, titled, -⟩ := TableWriter.new_spec takes fresh sorted.schema
    cases untitled.symm.trans titled
  · next writer titled =>
    have written : Ensures (modifyGet (Copy.run ⟨0, sorted, writer⟩)) host fun result _ =>
        LosslessSink.Takes sink ∧ LosslessSink.taken sink = [] → ∀ error, result.1 ≠ .error (.writing error) := by
      by_cases room : LosslessSink.Takes sink ∧ LosslessSink.taken sink = []
      · obtain ⟨records, titled', within⟩ := TableWriter.new_spec room.1 room.2 sorted.schema
        cases titled.symm.trans titled'
        exact (Copy.run_takes within host).mono fun _ _ written _ => written
      · exact Ensures.intro fun _ _ _ room' => absurd room' room
    rw [Ensures.bind_iff]
    apply ((Copy.run_cares tidy sound).and written).mono
    rintro ⟨answer, copy⟩ later ⟨cares, written⟩
    cases answer with
    | error fault =>
      cases fault with
      | writing error => exact ⟨_, cares.mono fun room => absurd rfl (written room error)⟩
      | reading error => exact ⟨_, cares.mono fun _ => ⟨_, rfl⟩⟩
    | ok =>
      dsimp only
      rw [Ensures.bind_iff]
      simp only [RecordSource.close]
      rw [Ensures.bind_iff]
      have contained : Contained TableReader.owned := TableReader.contained
      apply (SortedStream.close_cares contained cares.tidy cares.minds.sound).mono
      rintro ⟨closed, stream⟩ last cares'
      have ended : SortedStream.Cares TableReader.owned sorted.stream stream
          (LosslessSink.Takes sink ∧ LosslessSink.taken sink = []) host.disk last.disk :=
        (cares.trans cares').mono fun _ => .inr trivial
      rw [Ensures.pure_iff]
      cases closed with
      | error error => exact ⟨stream, ended⟩
      | ok =>
        dsimp only
        split
        · exact ⟨stream, ended⟩
        · rw [Ensures.bind_iff]
          exact Ensures.report fun later same => ⟨stream, same ▸ ended⟩

/-- Sorting the input leaves nothing, or a stream whose directory is accounted for. -/
theorem sortInput_accounted {options : Options} {tree : FileTree} (positive : 0 < options.sorter.pageSize) {host : Host}
    (sound : host.disk.Sound) :
    Ensures (sortInput options tree).run host fun result later =>
      match result with
      | .error _ => NothingLeft (fun _ => False) none host.disk later.disk
      | .ok sorted => sorted.stream.Tidy ∧ Accounted TableReader.owned (fun _ => False) host.disk sorted.stream.source
          sorted.stream.store later.disk := by
  refine sortInput_rule positive (fun _ _ later untouched => .of_same sound untouched.disk_eq) ?_
  intro _ reader comparator _ start untouched
  rw [← untouched.disk_eq] at sound ⊢
  have contained : Contained TableReader.owned := TableReader.contained
  apply (Sorter.sortBy_accounted contained ⟨options.sorter, positive⟩ Layout.feature.format comparator.compare
    sound nofun).mono
  intro result later outcome last untouched'
  rw [untouched'.disk_eq]
  cases result with
  | error failure => exact outcome
  | ok stream => exact outcome

/-- Where no page is filled the stream has no directory. -/
theorem sortInput_unspilled {options : Options} {tree : FileTree} (positive : 0 < options.sorter.pageSize)
    (few : ¬ FillsPage options tree) {host : Host} (sound : host.disk.Sound) :
    Ensures (sortInput options tree).run host fun result _ => ∀ sorted, result = .ok sorted →
      sorted.stream.store.directory = none := by
  refine sortInput_rule positive ?_ fun _ reader comparator opened start untouched => ?_
  · rintro - text later - sorted ⟨⟩
  rw [← untouched.disk_eq] at sound
  have few' : reader.readable.length < options.sorter.pageSize :=
    Nat.lt_of_not_le fun full => few ⟨reader, comparator, opened, full⟩
  have contained : Contained TableReader.owned := TableReader.contained
  apply (@Sorter.sortBy_unspilled _ _ _ _ _ _ _ _ contained _ TableReader.bounded ⟨options.sorter, positive⟩
    Layout.feature.format comparator.compare few' sound).mono
  rintro result later unspilled last -
  cases result with
  | error failure => rintro sorted ⟨⟩
  | ok stream =>
    rintro sorted ⟨⟩
    exact unspilled stream rfl

/-- A run leaves nothing if no page is filled, or the output can be made and has room. -/
theorem sortFile_nothingLeft {options : Options} {tree : FileTree} (positive : 0 < options.sorter.pageSize)
    (savable : FillsPage options tree → ∀ task, task? options tree = some task →
      ∃ device created, tree.create options.output = .ok (device, created) ∧ device ≠ .fullDevice)
    {host : Host} (sound : host.disk.Sound) :
    Ensures (sortFile options tree) host fun _ later => ∃ directory,
      NothingLeft (fun _ => False) directory host.disk later.disk := by
  have prepared : Ensures (sortInput options tree).run host fun result _ => ∀ sorted, result = .ok sorted →
      sorted.stream.store.directory = none ∨
        ∃ device created, tree.create options.output = .ok (device, created) ∧ device ≠ .fullDevice := by
    by_cases fills : FillsPage options tree
    · cases given : task? options tree with
      | none =>
        apply (sortInput_of_none positive (.inl given)).mono
        rintro result later ⟨stop, rfl⟩ sorted ⟨⟩
      | some task => exact Ensures.intro fun _ _ _ _ _ => .inr (savable fills task given)
    · exact (sortInput_unspilled positive fills sound).mono fun _ _ unspilled sorted equal =>
        .inl (unspilled sorted equal)
  simp only [sortFile]
  rw [Ensures.bind_iff]
  apply ((sortInput_accounted positive sound).and prepared).mono
  rintro answer later ⟨outcome, prepared⟩
  cases answer with
  | error stop => cases stop <;> exact ⟨none, outcome⟩
  | ok sorted =>
    obtain ⟨tidy, accounted⟩ := outcome
    have room := prepared sorted rfl
    dsimp only
    split
    · next error uncreated =>
      rcases room with unspilled | ⟨device, created, creates, -⟩
      · exact ⟨none, accounted.nothingLeft unspilled⟩
      · cases uncreated.symm.trans creates
    · next device created creates =>
      rw [Ensures.bind_iff]
      apply (@save_cares options sorted (.new device) later tidy accounted.minds.sound).mono
      rintro ⟨saved, sink⟩ last ⟨stream, cares⟩
      have released : stream.store.directory = none := by
        rcases room with unspilled | ⟨device', created', creates', takes⟩
        · exact cares.unspilled unspilled
        · cases creates.symm.trans creates'
          exact cares.tidy (cares.failed ⟨takes, rfl⟩)
      have nothing := accounted.nothingLeft_of_released cares released
      cases saved with
      | ok => exact ⟨_, nothing⟩
      | error stop => cases stop <;> exact ⟨_, nothing⟩

theorem temporaryStore_bare (tree : FileTree) (place : Place) : (temporaryStore tree place).Bare := by
  cases place with
  | standard => exact ⟨fun _ => rfl, fun _ => rfl⟩
  | named path => exact ⟨fun _ => rfl, fun _ => rfl⟩

/-- When a run has ended there is nothing on the temporary store, whatever its arguments and files are and whether or not
its threads start, unless a page was filled. Then nothing is left if the run is not killed for want of memory and, where
there is something to sort, the output can be made and written to. -/
theorem run_leaves_nothing {poolFault? : Nat → Option String} {arguments : List String} {tree : FileTree}
    (affordable : ∀ options, Options.read arguments = .ok options → FillsPage options tree →
      Affordable options.sorter.bufferSize)
    (savable : ∀ options, Options.read arguments = .ok options → FillsPage options tree → ∀ task,
      task? options tree = some task →
        ∃ device created, tree.create options.output = .ok (device, created) ∧ device ≠ .fullDevice) :
    (runOn poolFault? arguments tree).disk.Bare := by
  cases accepted : Options.read arguments with
  | error refusal =>
    simp only [runOn, accepted]
    cases refusal with
    | help => exact temporaryStore_bare tree .standard
    | usage => exact temporaryStore_bare tree .standard
  | ok options =>
    have sound := temporaryStore_sound tree options.sorter.place
    obtain ⟨status, -, directory, nothing⟩ := @runOn_rule poolFault? _ tree _ accepted (affordable options accepted)
      (fun _ _ disk => ∃ directory, NothingLeft (fun _ => False) directory
        (temporaryStore tree options.sorter.place) disk)
      (sortFile_nothingLeft (Options.pageSize_pos accepted) (savable options accepted) sound)
    exact nothing.bare (temporaryStore_bare tree options.sorter.place)

/-- Two features in pages of one, sorted in place. -/
theorem run_leaves_nothing_sample : (run ["-i", "t", "-o", "t", "-s", "n", "-p", "1"] sampleTree).disk.Bare := by
  have accepted : Options.read ["-i", "t", "-o", "t", "-s", "n", "-p", "1"] =
      .ok (sampleOptions "t" { SorterOptions.standard with pageSize := 1 }) := rfl
  apply @run_leaves_nothing fun _ => none
  · intro options accepted' fills
    cases accepted.symm.trans accepted'
    exact .inl (by decide)
  · intro options accepted' fills task given
    cases accepted.symm.trans accepted'
    exact ⟨.file ["t", FileTree.root], _, rfl, nofun⟩

/-- Where runs were spilled and the output cannot be made, their directory is left. -/
theorem run_uncreated {arguments : List String} {tree : FileTree} {options : Options} {task : SortTask} {error : FileError}
    (accepted : Options.read arguments = .ok options) (storable : Storable options tree)
    (given : task? options tree = some task) (full : options.sorter.pageSize ≤ task.features.length)
    (nothing : options.sorter.offset = 0) (refused : tree.create options.output = .error error) :
    (run arguments tree).status = some 1 ∧ ∃ directory, (run arguments tree).disk.hasDirectory directory := by
  have positive := Options.pageSize_pos accepted
  have started : options.sorter.poolFault? (.fresh (temporaryStore tree options.sorter.place)) = none :=
    Option.bind_fun_none _
  have leaves : Ensures (sortFile options tree) (.fresh (temporaryStore tree options.sorter.place)) fun result later =>
      result.1 = 1 ∧ ∃ directory, later.disk.hasDirectory directory := by
    simp only [sortFile]
    rw [Ensures.bind_iff]
    apply (sortInput_of_some positive storable given rfl started).mono
    rintro answer later ⟨sorted, rfl, -, left⟩
    dsimp only
    rw [refused]
    exact ⟨rfl, left full nothing⟩
  obtain ⟨status, status_eq, rfl, left⟩ := @runOn_rule (fun _ => none) _ tree _ accepted
    (fun fills => .inl (storable.buffer fills))
    (fun status _ disk => status = 1 ∧ ∃ directory, disk.hasDirectory directory) leaves
  exact ⟨status_eq, left⟩

/-- Two features in pages of one, with a directory for the output. -/
theorem run_uncreated_sample :
    (run ["-i", "t", "-o", ".", "-s", "n", "-p", "1"] sampleTree).status = some 1 ∧
      ∃ directory, (run ["-i", "t", "-o", ".", "-s", "n", "-p", "1"] sampleTree).disk.hasDirectory directory := by
  have accepted : Options.read ["-i", "t", "-o", ".", "-s", "n", "-p", "1"] =
      .ok (sampleOptions "." { SorterOptions.standard with pageSize := 1 }) := rfl
  have given := task?_sampleTree "." { SorterOptions.standard with pageSize := 1 }
  exact @run_uncreated _ _ _ _ .isDirectory accepted (storable_sampleTree ".") given (by decide) rfl rfl

end Command

end SpillSort
