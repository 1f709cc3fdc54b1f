import SpillSort.Proofs.EndCleanup
import SpillSort.Proofs.RunLifetime

/-! # The runs that are still there

While a stream is used, the files in its directory are those of the runs that have records left: records that were
not skipped, not given and not looked at. That holds until the stream has told its end or an error, its limit is
reached, or it is closed.
-/

namespace SpillSort

variable {σ α ε : Type}

/-! ## Streams -/

namespace SortedStream

/-- A stream that merges the sorted pages of some records, so many of which have been taken out of the merge. Its
directory is there, with no names in it but those of runs. -/
structure Lasting (compare : Comparison α) (size : Nat) (records : List α) (directory : Nat) (base : Disk) (taken : Nat)
    (stream : SortedStream σ α) (disk : Disk) : Prop where
  compare_eq : stream.compare = compare
  directory_eq : stream.store.directory = some directory
  present : disk.hasDirectory directory
  merging : ∃ merger, stream.phase = .merging merger ∧ merger.pending = none ∧ (merger.seeded = true ∨ taken = 0) ∧
    (∀ run ∈ merger.inputs, run.Lodged (some directory)) ∧
      merger.Poised (RunReader.Lasts directory (records.length / size)) (placing size records) compare
        ((sortedPlaces compare records).drop taken) disk
  names : ∀ name, disk.entry? ⟨directory, name⟩ ≠ none → ∃ index < records.length / size, name = runName index
  sheds : base.Sheds (some directory) disk

variable {compare : Comparison α} {size directory taken : Nat} {records : List α} {base : Disk}
  {stream : SortedStream σ α} {disk : Disk} {host : Host}

/-- The names in the directory are those of the runs whose pages have records left. -/
theorem Lasting.entry?_iff (lasting : stream.Lasting compare size records directory base taken disk) (name : String) :
    disk.entry? ⟨directory, name⟩ ≠ none ↔
      ∃ index < records.length / size, name = runName index ∧ PageLeft compare size records taken index := by
  have each : ∀ index < records.length / size,
      (disk.entry? ⟨directory, runName index⟩ ≠ none ↔ PageLeft compare size records taken index) := by
    intro index full
    have known : index < (placing size records).width := Nat.lt_succ_of_lt full
    obtain ⟨merger, -, quiet, begun, -, poised⟩ := lasting.merging
    cases seeded : merger.seeded with
    | true =>
      obtain ⟨run, lane?, lasts, left⟩ := poised.lane_iff seeded quiet known
      exact (lasts.entry?_iff full).trans left
    | false =>
      -- No run has been asked yet, so no file is gone and every page is whole.
      obtain ⟨run, lane, lasts⟩ := poised.lane_of_unseeded seeded known
      obtain rfl : taken = 0 := begun.resolve_left (by simp [seeded])
      exact iff_of_true ((lasts.entry?_iff full).mpr (Option.some_ne_none _)) (pageLeft_of_full full)
  constructor
  · intro present
    obtain ⟨index, full, rfl⟩ := lasting.names name present
    exact ⟨index, full, rfl, (each index full).mp present⟩
  · rintro ⟨index, full, rfl, left⟩
    exact (each index full).mpr left

/-- Asking the merge takes one more record out of it. -/
theorem pull_lasting [Std.TransCmp compare]
    (lasting : stream.Lasting compare size records directory base taken host.disk) :
    Ensures (stream.phase.pull stream.compare) host fun result later =>
      match result.1 with
      | none => records.length ≤ taken
      | some (.error _) => False
      | some (.ok _) =>
        { stream with phase := result.2 }.Lasting compare size records directory base (taken + 1) later.disk := by
  obtain ⟨merger, phase_eq, quiet, -, lodged, poised⟩ := lasting.merging
  rw [phase_eq, lasting.compare_eq]
  simp only [Phase.pull]
  rw [Ensures.bind_iff]
  generalize left_eq : (sortedPlaces compare records).drop taken = left at poised
  apply ((poised.next (RunReader.plays_runs directory (records.length / size)) quiet).and
    (Merger.next_rule compare (Disk.Sheds (some directory)) (.refl _) .trans
      (fun _ host lodged => RunReader.pull_lodged lodged host) lodged host)).mono
  rintro ⟨answer, merger'⟩ later ⟨handed, lodged', sheds⟩
  cases handed with
  | ended =>
    rw [← length_sortedPlaces compare records]
    exact List.drop_eq_nil_iff.mp left_eq
  | @record placed left' seeded' quiet' poised' =>
    have left_eq' : (sortedPlaces compare records).drop (taken + 1) = left' := by
      rw [← List.tail_drop, left_eq, List.tail_cons]
    constructor
    case compare_eq => rfl
    case directory_eq => exact lasting.directory_eq
    case present => exact (sheds.hasDirectory_eq directory).trans lasting.present
    case merging => exact ⟨merger', rfl, quiet', .inl seeded', lodged', left_eq' ▸ poised'⟩
    case names =>
      intro name there
      rcases sheds.names ⟨directory, name⟩ with same | gone
      · exact lasting.names name (same ▸ there)
      · exact absurd gone there
    case sheds => exact lasting.sheds.trans sheds

/-- Taking one more record, which may be the last of a limit. -/
theorem advance_lasting [Std.TransCmp compare]
    (lasting : stream.Lasting compare size records directory base taken host.disk) :
    Ensures (stream.advance (ε := ε)) host fun result later =>
      match result.1 with
      | .error _ => False
      | .ok none => stream.remaining = some 0 ∨ records.length ≤ taken
      | .ok (some _) => result.2.peeked = stream.peeked ∧ stream.remaining ≠ some 0 ∧
          result.2.remaining = stream.remaining.map (· - 1) ∧ (result.2.remaining ≠ some 0 →
            result.2.Lasting compare size records directory base (taken + 1) later.disk) := by
  unfold advance
  split
  · next closed =>
    obtain ⟨merger, phase_eq, -⟩ := lasting.merging
    cases closed.symm.trans phase_eq
  · split
    · next used => exact .inl used
    · next more =>
      rw [Ensures.bind_iff]
      apply (pull_lasting lasting).mono
      rintro ⟨answer, phase⟩ later outcome
      match answer with
      | none => exact .inr outcome
      | some (.error error) => exact outcome.elim
      | some (.ok record) =>
        simp only [settle]
        split
        · next last =>
          rw [Ensures.bind_iff]
          apply (finish_spec _ later).mono
          rintro ended final ⟨store, rfl⟩
          exact ⟨rfl, more, rfl, fun unlimited => absurd last unlimited⟩
        · exact ⟨rfl, more, rfl, fun _ => ⟨outcome.compare_eq, outcome.directory_eq, outcome.present, outcome.merging,
            outcome.names, outcome.sheds⟩⟩

theorem skip_lasting [Std.TransCmp compare] {count : Nat} (unlimited : stream.remaining = none)
    (lasting : stream.Lasting compare size records directory base taken host.disk)
    (within : taken + count ≤ records.length) :
    Ensures (stream.skip (ε := ε) count) host fun result later =>
      result.2.Lasting compare size records directory base (taken + count) later.disk := by
  induction count generalizing stream taken host with
  | zero => exact lasting
  | succ count ih =>
    unfold skip
    rw [Ensures.bind_iff]
    apply (advance_lasting lasting).mono
    rintro ⟨answer, stream'⟩ later outcome
    rcases answer with error | _ | record
    · exact outcome.elim
    · rcases outcome with used | past
      · rw [unlimited] at used
        cases used
      · omega
    · obtain ⟨-, -, remaining_eq, lasting'⟩ := outcome
      have unlimited' : stream'.remaining = none := by
        rw [remaining_eq, unlimited]
        rfl
      have more : stream'.remaining ≠ some 0 := by
        rw [unlimited']
        exact (Option.some_ne_none 0).symm
      rw [← Nat.add_assoc, Nat.add_right_comm]
      exact ih unlimited' (lasting' more) (by omega)

end SortedStream

/-! ## Points between calls -/

namespace StreamAnswer

/-- The stream goes on after the answer: it was not asked to close, and has told no error and no end. -/
def Onward (answer : StreamAnswer α ε) : Prop :=
  answer.error? = none ∧ answer.saysEnd = false ∧ answer.isClosing = false

end StreamAnswer

/-- A limit, which was not zero from the start, has been reached. -/
def UsedUp (limit : Option Nat) (emitted : Nat) : Prop := ∃ most, limit = some most ∧ 0 < most ∧ most ≤ emitted

theorem UsedUp.mono {limit : Option Nat} {emitted emitted' : Nat} (used : UsedUp limit emitted)
    (further : emitted ≤ emitted') : UsedUp limit emitted' := by
  obtain ⟨most, limit_eq, positive, reached⟩ := used
  exact ⟨most, limit_eq, positive, Nat.le_trans reached further⟩

namespace SortedStream

/-- The records that a stream has given, and the one that was looked at. -/
def emitted (stream : SortedStream σ α) (given : Nat) : Nat := given + stream.peeked.toList.length

/-- A stream on its way, which has emitted so many records after the offset. -/
structure OnCourse (compare : Comparison α) (options : SorterOptions) (records : List α) (directory : Nat) (base : Disk)
    (sent : Nat) (stream : SortedStream σ α) (disk : Disk) : Prop where
  lasting : stream.Lasting compare options.pageSize records directory base (options.offset + sent) disk
  remaining_eq : stream.remaining = options.limit.map (· - sent)

variable {compare : Comparison α} {options : SorterOptions} {records : List α} {directory given sent : Nat}
  {base : Disk} {stream : SortedStream σ α} {disk : Disk} {host : Host}

/-- What was looked at makes no difference. -/
theorem OnCourse.look (onCourse : stream.OnCourse compare options records directory base sent disk)
    (peeked : Option α) :
    { stream with peeked }.OnCourse compare options records directory base sent disk := by
  obtain ⟨⟨compare_eq, directory_eq, present, merging, names, sheds⟩, remaining_eq⟩ := onCourse
  exact ⟨⟨compare_eq, directory_eq, present, merging, names, sheds⟩, remaining_eq⟩

/-- One more record is emitted, unless that is the end. -/
theorem advance_onCourse [Std.TransCmp compare]
    (onCourse : stream.OnCourse compare options records directory base sent host.disk) :
    Ensures (stream.advance (ε := ε)) host fun result later =>
      match result.1 with
      | .error _ => False
      | .ok none => True
      | .ok (some _) => result.2.peeked = stream.peeked ∧ (UsedUp options.limit (sent + 1) ∨
          result.2.OnCourse compare options records directory base (sent + 1) later.disk) := by
  apply (advance_lasting onCourse.lasting).mono
  rintro ⟨answer, stream'⟩ later outcome
  match answer with
  | .error error => exact outcome.elim
  | .ok none => trivial
  | .ok (some record) =>
    obtain ⟨same, more, remaining_eq, lasting⟩ := outcome
    refine ⟨same, ?_⟩
    rw [onCourse.remaining_eq] at more remaining_eq
    cases limit_eq : options.limit with
    | none =>
      rw [limit_eq] at remaining_eq
      refine .inr ⟨lasting ?_, ?_⟩
      · rw [remaining_eq]
        exact nofun
      · rw [remaining_eq, limit_eq]
        rfl
    | some most =>
      rw [limit_eq] at more remaining_eq
      have left : most - sent ≠ 0 := fun none_left => more (congrArg some none_left)
      change stream'.remaining = some (most - sent - 1) at remaining_eq
      by_cases last : most ≤ sent + 1
      · exact .inl ⟨most, rfl, by omega, last⟩
      · refine .inr ⟨lasting ?_, ?_⟩
        · rw [remaining_eq, ne_eq, Option.some.injEq]
          omega
        · rw [remaining_eq, limit_eq, Nat.sub_sub]
          rfl

theorem emitted_of_looked {record : α} (looked : stream.peeked = some record) (given : Nat) :
    emitted { stream with peeked := none } (given + 1) = stream.emitted given := by
  rw [emitted, emitted, looked]
  rfl

theorem emitted_of_nothing (nothing : stream.peeked = none) (given : Nat) : stream.emitted given = given := by
  rw [emitted, nothing]
  rfl

theorem hasNext_onCourse [Std.TransCmp compare]
    (onCourse : stream.OnCourse compare options records directory base (stream.emitted given) host.disk) :
    Ensures (stream.hasNext (ε := ε)) host fun result later =>
      match result.1 with
      | .error _ => False
      | .ok false => True
      | .ok true => UsedUp options.limit (result.2.emitted given) ∨
          result.2.OnCourse compare options records directory base (result.2.emitted given) later.disk := by
  unfold hasNext
  split
  · exact .inr onCourse
  · next nothing =>
    rw [emitted_of_nothing nothing] at onCourse
    rw [Ensures.bind_iff]
    apply (advance_onCourse onCourse).mono
    rintro ⟨answer, stream'⟩ later outcome
    match answer with
    | .error error => exact outcome.elim
    | .ok none => trivial
    | .ok (some record) => exact outcome.2.imp_right fun onCourse' => onCourse'.look (some record)

theorem next_onCourse [Std.TransCmp compare]
    (onCourse : stream.OnCourse compare options records directory base (stream.emitted given) host.disk) :
    Ensures (stream.next (ε := ε)) host fun result later =>
      match result.1 with
      | .error _ => False
      | .ok none => True
      | .ok (some _) => UsedUp options.limit (result.2.emitted (given + 1)) ∨
          result.2.OnCourse compare options records directory base (result.2.emitted (given + 1)) later.disk := by
  unfold next
  split
  · next record looked =>
    rw [← emitted_of_looked looked] at onCourse
    exact .inr (onCourse.look none)
  · next nothing =>
    rw [emitted_of_nothing nothing] at onCourse
    apply (advance_onCourse onCourse).mono
    rintro ⟨answer, stream'⟩ later outcome
    match answer with
    | .error error => exact outcome.elim
    | .ok none => trivial
    | .ok (some record) =>
      obtain ⟨same, onward⟩ := outcome
      have nothing' : stream'.peeked = none := same.trans nothing
      dsimp only
      rw [emitted_of_nothing nothing']
      exact onward

section Calls

variable [RecordSource σ α ε]

/-- What was emitted stays emitted. -/
theorem perform_emitted (stream : SortedStream σ α) (given : Nat) (call : StreamCall) (host : Host) :
    Ensures (stream.perform (ε := ε) call) host fun result _ => result.1.isClosing = false →
      stream.emitted given ≤ result.2.emitted (given + result.1.record?.toList.length) := by
  cases looked : stream.peeked with
  | none =>
    apply Ensures.intro
    intro result later _ _
    rw [emitted_of_nothing looked, emitted]
    omega
  | some record =>
    have kept := Nat.le_of_eq (emitted_of_looked looked given).symm
    cases call with
    | hasNext =>
      simp only [perform, hasNext, looked]
      exact fun _ => Nat.le_refl _
    | next =>
      simp only [perform, next, looked]
      exact fun _ => kept
    | iterate =>
      simp only [perform, next, looked]
      exact fun _ => kept
    | close =>
      simp only [perform]
      rw [Ensures.bind_iff]
      apply Ensures.intro
      intro result later _ closing
      cases closing

/-- A call leaves a stream on its way, or reaches the limit, or is the last before the end. -/
theorem perform_onCourse [Std.TransCmp compare]
    (onCourse : stream.OnCourse compare options records directory base (stream.emitted given) host.disk)
    (call : StreamCall) :
    Ensures (stream.perform (ε := ε) call) host fun result later => result.1.Onward →
      UsedUp options.limit (result.2.emitted (given + result.1.record?.toList.length)) ∨
        result.2.OnCourse compare options records directory base
          (result.2.emitted (given + result.1.record?.toList.length)) later.disk := by
  cases call with
  | hasNext =>
    unfold perform
    rw [Ensures.bind_iff]
    apply (hasNext_onCourse onCourse).mono
    rintro ⟨answer, stream'⟩ later outcome
    match answer with
    | .error error => exact outcome.elim
    | .ok false => exact fun onward => by cases onward.2.1
    | .ok true => exact fun _ => outcome
  | next =>
    unfold perform
    rw [Ensures.bind_iff]
    apply (next_onCourse onCourse).mono
    rintro ⟨answer, stream'⟩ later outcome
    match answer with
    | .error error => exact outcome.elim
    | .ok none => exact fun onward => by cases onward.2.1
    | .ok (some record) => exact fun _ => outcome
  | iterate =>
    unfold perform
    rw [Ensures.bind_iff]
    apply (next_onCourse onCourse).mono
    rintro ⟨answer, stream'⟩ later outcome
    match answer with
    | .error error => exact outcome.elim
    | .ok none => exact fun onward => by cases onward.2.1
    | .ok (some record) => exact fun _ => outcome
  | close =>
    unfold perform
    rw [Ensures.bind_iff]
    apply Ensures.intro
    intro result later _ onward
    cases onward.2.2

/-- After calls that were all answered, a stream has reached its limit or is on its way still. -/
theorem play_onCourse [Std.TransCmp compare] {calls : List StreamCall}
    (course : UsedUp options.limit (stream.emitted given) ∨
      stream.OnCourse compare options records directory base (stream.emitted given) host.disk) :
    Ensures (stream.play (ε := ε) (calls.map .call)) host fun used later => (∀ answer ∈ used.1, answer.Onward) →
      UsedUp options.limit (used.2.emitted (given + (used.1.filterMap StreamAnswer.record?).length)) ∨
        used.2.OnCourse compare options records directory base
          (used.2.emitted (given + (used.1.filterMap StreamAnswer.record?).length)) later.disk := by
  induction calls generalizing stream given host with
  | nil => exact fun _ => course
  | cons call calls ih =>
    simp only [List.map_cons, play]
    have step : Ensures (stream.perform (ε := ε) call) host fun result later => result.1.Onward →
        UsedUp options.limit (result.2.emitted (given + result.1.record?.toList.length)) ∨
          result.2.OnCourse compare options records directory base
            (result.2.emitted (given + result.1.record?.toList.length)) later.disk := by
      rcases course with reached | onCourse
      -- Past the limit the files are not followed any more, but what was emitted never gets less.
      · apply (stream.perform_emitted given call host).mono
        intro result later further onward
        exact .inl (reached.mono (further onward.2.2))
      · exact perform_onCourse onCourse call
    rw [Ensures.bind_iff]
    apply step.mono
    rintro ⟨answer, stream'⟩ later course'
    rw [Ensures.bind_iff]
    apply Ensures.intro
    rintro ⟨answers, used⟩ last ran onward
    obtain ⟨first, others⟩ := List.forall_mem_cons.mp onward
    have rest := (ih (course' first)).of_run ran others
    have counted : given + ((answer :: answers).filterMap StreamAnswer.record?).length =
        given + answer.record?.toList.length + (answers.filterMap StreamAnswer.record?).length := by
      cases found : answer.record? <;> simp [found, Nat.add_assoc, Nat.add_comm]
    dsimp only at rest
    rw [← counted] at rest
    exact rest

end Calls

end SortedStream

/-! ## The whole sort -/

namespace Sorter

variable {sorter : Sorter} {format : SpillFormat α} {compare : Comparison α}

/-- The stream of a source with a full page is on its way right after the offset. -/
theorem sortBy_onCourse [RecordSource σ α ε] [ErrorText ε] [Std.TransCmp compare] {source : σ} {records : List α}
    {own : Nat → Prop} {host : Host} (roundTrips : format.RoundTrips) (sound : host.disk.Sound)
    (yields : Yields records source own host.disk) (full : sorter.options.pageSize ≤ records.length)
    (within : sorter.options.offset ≤ records.length) :
    Ensures (sorter.sortBy (ε := ε) format compare source) host fun result later => ∀ stream, result = .ok stream →
      ∃ directory, stream.OnCourse compare sorter.options records directory later.disk 0 later.disk := by
  refine sortBy_rule (fun outcome filling later => ∃ directory, (openStream compare filling outcome).Lasting compare
    sorter.options.pageSize records directory later.disk 0 later.disk) ?_ ?_
  · apply (@Filling.run_lasts _ _ ε _ ⟨compare, format, sorter.options.pageSize⟩ own records source sorter.options.place
      sorter.options.bufferSize host roundTrips.restores yields sound full sorter.pageSize_pos).mono
    rintro ⟨answer, filling⟩ later ready outcome rfl
    obtain ⟨directory, readers, rfl, mine, present, length_eq, lasting, names⟩ := ready outcome rfl
    refine ⟨directory, rfl, mine, present, ⟨_, rfl, rfl, .inr rfl, ?_, ?_⟩, names, .refl _ _⟩
    · intro run among
      obtain ⟨index, found⟩ := List.getElem?_of_mem among
      exact (lasting index run found).lodged
    · rw [List.drop_zero]
      exact Merger.poised_pages sorter.pageSize_pos length_eq lasting
  · rintro outcome filling start start' ⟨directory, lasting⟩ same
    have unlimited : (openStream compare filling outcome).remaining = none := by cases outcome <;> rfl
    rw [← same] at lasting
    have bounded : 0 + sorter.options.offset ≤ records.length := (Nat.zero_add _).symm ▸ within
    apply (SortedStream.skip_lasting (ε := ε) unlimited lasting bounded).mono
    rintro ⟨answer, stream⟩ later skipped -
    rw [Nat.zero_add] at skipped
    obtain ⟨compare_eq, directory_eq, present, merging, names, -⟩ := skipped
    exact ⟨directory, ⟨compare_eq, directory_eq, present, merging, names, .refl _ _⟩, by simp⟩

/-- While a stream that has spilled runs is used, at every point before it has told its end or an error, has reached
its limit or was closed: its directory is there, and the names in it are just those of the runs that have a record
left, which was neither skipped nor given nor looked at. Nothing else has been done to the temporary store. -/
theorem sortBy_runFiles [RecordSource σ α ε] [ErrorText ε] [Std.TransCmp compare] {source : σ} {records : List α}
    {own : Nat → Prop} {host : Host} (roundTrips : format.RoundTrips) (sound : host.disk.Sound)
    (yields : Yields records source own host.disk) (full : sorter.options.pageSize ≤ records.length)
    (within : sorter.options.offset ≤ records.length) :
    Ensures (sorter.sortBy (ε := ε) format compare source) host fun result later => ∀ stream, result = .ok stream →
      ∀ calls : List StreamCall, Ensures (stream.play (ε := ε) (calls.map .call)) later fun used middle =>
        let emitted := used.2.emitted (used.1.filterMap StreamAnswer.record?).length
        (∀ answer ∈ used.1, answer.Onward) → ¬ UsedUp sorter.options.limit emitted →
          ∃ directory, used.2.store.directory = some directory ∧ middle.disk.hasDirectory directory ∧
            later.disk.Sheds (some directory) middle.disk ∧
            ∀ name, middle.disk.entry? ⟨directory, name⟩ ≠ none ↔
              ∃ index < records.length / sorter.options.pageSize, name = runName index ∧
                PageLeft compare sorter.options.pageSize records (sorter.options.offset + emitted) index := by
  apply ((sortBy_onCourse roundTrips sound yields full within).and
    (sorter.sortBy_fresh format compare source host)).mono
  rintro result later ⟨started, fresh⟩ stream found calls
  obtain ⟨directory, onCourse⟩ := started stream found
  have nothing := (fresh stream found).2.1
  rw [← SortedStream.emitted_of_nothing nothing 0] at onCourse
  apply (SortedStream.play_onCourse (.inr onCourse)).mono
  intro used middle course emitted onward unreached
  rw [Nat.zero_add] at course
  obtain ⟨lasting, -⟩ := (course onward).resolve_left unreached
  exact ⟨directory, lasting.directory_eq, lasting.present, lasting.sheds, lasting.entry?_iff⟩

/-- Five numbers in pages of two, with three of them skipped. The next one is the last of the second page, and its file
is gone when it has been given; the first page still has its three. -/
theorem sortBy_runFiles_words :
    Ensures (sortBy ⟨{ SorterOptions.standard with pageSize := 2, offset := 3 }, by decide⟩ .words Ord.compare
      (Script.ofRecords [3, 1, 2, 1, 0] : Script Int64 Empty)) (Host.fresh .empty) fun result later =>
        ∃ stream, result = .ok stream ∧ Ensures (stream.play (ε := Empty) [.call .next]) later fun used middle =>
          used.1 = [.next (.ok (some 2))] ∧ ∃ directory, middle.disk.hasDirectory directory ∧
            ∀ name, middle.disk.entry? ⟨directory, name⟩ ≠ none ↔ name = runName 0 := by
  let sorter : Sorter := ⟨{ SorterOptions.standard with pageSize := 2, offset := 3 }, by decide⟩
  have yields : Yields [3, 1, 2, 1, 0] (Script.ofRecords [3, 1, 2, 1, 0] : Script Int64 Empty) (fun _ => False)
      Disk.empty := yields_ofRecords _ _
  have places : sortedPlaces Ord.compare [3, 1, 2, 1, 0] =
      ([(0, 4), (1, 1), (1, 3), (2, 2), (3, 0)] : List (Int64 × Nat)) := by
    simp +decide [sortedPlaces, Comparison.stableSort, List.mergeSort]
  have selected : sorter.options.select (Comparison.stableSort Ord.compare [3, 1, 2, 1, 0]) = ([2, 3] : List Int64) := by
    simp +decide [Comparison.stableSort, List.mergeSort, SorterOptions.select, SorterOptions.standard, upTo, sorter]
  apply (((sortBy_succeeds SpillFormat.words_roundTrips Disk.sound_empty yields
    (.inr (SpillStore.accepts_words _))).and (sorter.sortBy_fresh .words Ord.compare _ _)).and
      (sortBy_runFiles SpillFormat.words_roundTrips Disk.sound_empty yields (by decide) (by decide))).mono
  rintro result later ⟨⟨⟨stream, rfl, holds⟩, fresh⟩, kept⟩
  have nothing := (fresh stream rfl).2.1
  rw [selected] at holds
  have asked : Ensures (stream.play (ε := Empty) [.call .next]) later fun used _ =>
      used.1 = [.next (.ok (some 2))] ∧ used.2.peeked = none := by
    simp only [SortedStream.play, SortedStream.perform, SortedStream.next, nothing]
    rw [Ensures.bind_iff, Ensures.bind_iff]
    apply (SortedStream.advance_spec holds nothing).mono
    rintro ⟨answer, stream'⟩ middle ⟨⟨nothing', -⟩, answered⟩
    cases answered with
    | record rest => exact ⟨rfl, nothing'⟩
    | faulty impossible => exact impossible.elim
  refine ⟨stream, rfl, (asked.and (kept stream rfl [.next])).mono ?_⟩
  rintro ⟨answers, used⟩ middle ⟨⟨rfl, nothing'⟩, there⟩
  have emitted_eq : used.emitted 1 = 1 := SortedStream.emitted_of_nothing nothing' 1
  have onward : ∀ answer ∈ [(StreamAnswer.next (.ok (some 2)) : StreamAnswer Int64 Empty)], answer.Onward := by
    simp [StreamAnswer.Onward, StreamAnswer.error?, StreamAnswer.saysEnd, StreamAnswer.isClosing]
  obtain ⟨directory, -, present, -, names⟩ := there onward (by rintro ⟨most, ⟨⟩, -⟩)
  have left (index : Nat) :
      PageLeft Ord.compare 2 ([3, 1, 2, 1, 0] : List Int64) (3 + used.emitted 1) index ↔ index = 0 := by
    rw [emitted_eq, PageLeft, places]
    simp [eq_comm]
  refine ⟨rfl, directory, present, fun name => (names name).trans ?_⟩
  constructor
  · rintro ⟨index, -, name_eq, more⟩
    obtain rfl := (left index).mp more
    exact name_eq
  · rintro rfl
    exact ⟨0, by decide, rfl, (left 0).mpr rfl⟩

end Sorter

end SpillSort
