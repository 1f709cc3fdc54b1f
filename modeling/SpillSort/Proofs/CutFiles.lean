import SpillSort.Proofs.SortedOutput

/-! # Streams whose files are cut short

Between the calls on a stream any of its files may lose its end. A stream notices at the latest when a record
is missing. So it gives the records it would have given anyway, in order, and if it does not come to their end
it says so by one error, with nothing after it.
-/

namespace SpillSort

variable {σ α ε : Type}

/-! ## Cutting files -/

namespace Disk

/-- The store after a file has been cut to a length, unless it is that short already. -/
def shorten (path : SpillPath) (length : Nat) (disk : Disk) : Disk :=
  match disk.entry? path with
  | some (.file node) => disk.damage (.truncate (min length (disk.content node).length)) path
  | _ => disk

theorem shrinks_shorten (path : SpillPath) (length : Nat) (disk : Disk) :
    disk.Shrinks True (disk.shorten path length) := by
  simp only [shorten]
  split
  · next node found =>
    simp only [damage, found, Damage.resize]
    have cut_eq : (disk.content node).take (min length (disk.content node).length) ++
        List.replicate (min length (disk.content node).length - (disk.content node).length) 0 =
          (disk.content node).take length := by
      rw [Nat.sub_eq_zero_of_le (Nat.min_le_right ..), List.replicate_zero, List.append_nil, ← List.take_take,
        List.take_length]
    rw [cut_eq]
    refine ⟨?_, ?_, fun uncut => absurd trivial uncut⟩
    · rw [setContent, Array.size_setIfInBounds]
    · intro other known
      rw [content_setContent]
      split
      · next same =>
        rw [same.1]
        exact List.take_prefix _ _
      · exact List.prefix_refl _
  · exact .refl _ _

end Disk

/-- A request for records, or a file cut short between two requests. -/
def StreamEvent.Reads : StreamEvent → Prop
  | .call request => request ≠ .close
  | .outside change => ∃ path length, change = Disk.shorten path length

/-! ## Faithful answers -/

/-- The answer to one request where these records are still to come, with what is left then. -/
inductive StreamAnswer.Tells (left : List α → Prop) : List α → StreamAnswer α ε → Prop
  | onward {answer : StreamAnswer α ε} {rest records : List α} : answer.error? = none → answer.saysEnd = false →
    records = answer.record?.toList ++ rest → records ≠ [] → left rest → Tells left records answer
  | ended {answer : StreamAnswer α ε} : answer.saysEnd → left [] → Tells left [] answer
  | faulty {answer : StreamAnswer α ε} {records : List α} {fault : RunFault} :
    answer.error? = some (.spillRead (.decode fault)) → records ≠ [] → left [] → Tells left records answer

/-- A request for a record tells the same in both forms of its answer. -/
theorem Answered.tells {left : List α → Prop} {records : List α} {answer : Except (SortError ε) (Option α)}
    (answered : Answered True left records answer) :
    (StreamAnswer.next answer).Tells left records ∧ (StreamAnswer.iterated answer).Tells left records := by
  cases answered with
  | ended none_left => exact ⟨.ended rfl none_left, .ended rfl none_left⟩
  | @record record rest holds =>
    have some_left : record :: rest ≠ [] := List.cons_ne_nil _ _
    exact ⟨.onward rfl rfl rfl some_left holds, .onward rfl rfl rfl some_left holds⟩
  | faulty _ missing none_left => exact ⟨.faulty rfl missing none_left, .faulty rfl missing none_left⟩

/-- Answers that keep nothing quiet about what there is to give: records from the front of it and then, if the
stream was asked that far, either ends where all has been given, or one error where something is missing and
ends after it. -/
def Faithful (full : List α) (answers : List (StreamAnswer α ε)) : Prop :=
  ∃ given last, answers = given ++ last ∧
    (∀ answer ∈ given, answer.error? = none ∧ answer.saysEnd = false) ∧
    given.filterMap StreamAnswer.record? <+: full ∧
    (last = [] ∨
      given.filterMap StreamAnswer.record? = full ∧ (∀ answer ∈ last, answer.saysEnd) ∨
      given.filterMap StreamAnswer.record? ≠ full ∧ ∃ failed ends fault, last = failed :: ends ∧
        failed.error? = some (.spillRead (.decode fault)) ∧ ∀ answer ∈ ends, answer.saysEnd)

theorem faithful_nil (full : List α) : Faithful full ([] : List (StreamAnswer α ε)) :=
  ⟨[], [], rfl, List.forall_mem_nil _, List.nil_prefix, .inl rfl⟩

theorem Faithful.onward {full : List α} {answer : StreamAnswer α ε} {answers : List (StreamAnswer α ε)}
    (faithful : Faithful full answers) (fine : answer.error? = none) (more : answer.saysEnd = false) :
    Faithful (answer.record?.toList ++ full) (answer :: answers) := by
  obtain ⟨given, last, rfl, ongoing, part, outcome⟩ := faithful
  have given_eq : (answer :: given).filterMap StreamAnswer.record? =
      answer.record?.toList ++ given.filterMap StreamAnswer.record? := by
    cases found : answer.record? <;> simp [found]
  refine ⟨answer :: given, last, rfl, ?_, ?_, ?_⟩
  · intro other present
    rcases List.mem_cons.mp present with rfl | later
    · exact ⟨fine, more⟩
    · exact ongoing other later
  · rw [given_eq]
    exact (List.prefix_append_right_inj _).mpr part
  · rw [given_eq]
    rcases outcome with none_asked | ⟨all, ends⟩ | ⟨missing, rest⟩
    · exact .inl none_asked
    · exact .inr (.inl ⟨congrArg _ all, ends⟩)
    · exact .inr (.inr ⟨fun same => missing (List.append_cancel_left same), rest⟩)

theorem faithful_of_ends {answers : List (StreamAnswer α ε)} (ends : ∀ answer ∈ answers, answer.saysEnd) :
    Faithful [] answers :=
  ⟨[], answers, rfl, List.forall_mem_nil _, List.prefix_refl _, .inr (.inl ⟨rfl, ends⟩)⟩

theorem faithful_of_fault {full : List α} {failed : StreamAnswer α ε} {ends : List (StreamAnswer α ε)}
    {fault : RunFault} (told : failed.error? = some (.spillRead (.decode fault))) (missing : full ≠ [])
    (ended : ∀ answer ∈ ends, answer.saysEnd) : Faithful full (failed :: ends) :=
  ⟨[], failed :: ends, rfl, List.forall_mem_nil _, List.nil_prefix,
    .inr (.inr ⟨missing.symm, failed, ends, fault, rfl, told, ended⟩)⟩

/-! ## Using a stream -/

namespace SortedStream

variable [RecordSource σ α ε] {stream : SortedStream σ α} {records : List α} {host : Host} {events : List StreamEvent}

/-- One request is answered with a record, the end, or that a file was cut. -/
theorem perform_spec {call : StreamCall} (holds : stream.Holds True records host.disk) (reading : call ≠ .close) :
    Ensures (stream.perform (ε := ε) call) host fun result later =>
      result.1.Tells (fun rest => result.2.Holds True rest later.disk) records := by
  cases call with
  | hasNext =>
    simp only [perform]
    rw [Ensures.bind_iff]
    apply (hasNext_spec holds).mono
    rintro ⟨answer, stream'⟩ later outcome
    match answer with
    | .ok true => exact .onward rfl rfl rfl (outcome.1.mp rfl) outcome.2
    | .ok false =>
      have none_left : records = [] := Classical.byContradiction fun some => Bool.noConfusion (outcome.1.mpr some)
      subst none_left
      exact .ended rfl outcome.2
    | .error error =>
      cases outcome with
      | faulty _ missing none_left => exact .faulty rfl missing none_left
  | next => exact (next_spec holds).mono fun _ _ answered => answered.tells.1
  | iterate => exact (next_spec holds).mono fun _ _ answered => answered.tells.2
  | close => exact absurd rfl reading

/-- With nothing left every answer says so. -/
theorem play_ended (holds : stream.Holds True [] host.disk) (reading : ∀ event ∈ events, event.Reads) :
    Ensures (stream.play (ε := ε) events) host fun result _ => ∀ answer ∈ result.1, answer.saysEnd := by
  induction events generalizing stream host with
  | nil => exact List.forall_mem_nil _
  | cons event events ih =>
    obtain ⟨first, rest⟩ := List.forall_mem_cons.mp reading
    unfold play
    cases event with
    | call call =>
      rw [Ensures.bind_iff]
      apply (perform_spec holds first).mono
      rintro ⟨answer, stream'⟩ later told
      cases told with
      | onward _ _ _ some => exact absurd rfl some
      | faulty _ missing => exact absurd rfl missing
      | ended said none_left =>
        rw [Ensures.bind_iff]
        apply (ih none_left rest).mono
        rintro ⟨answers, stream''⟩ last ends
        exact List.forall_mem_cons.mpr ⟨said, ends⟩
    | outside change =>
      obtain ⟨path, length, rfl⟩ := first
      rw [Ensures.bind_iff, Ensures.onDisk_iff]
      exact ih (holds.stable (Disk.shrinks_shorten path length host.disk)) rest

/-- However files are cut between requests, the answers keep nothing quiet. -/
theorem play_faithful (holds : stream.Holds True records host.disk) (reading : ∀ event ∈ events, event.Reads) :
    Ensures (stream.play (ε := ε) events) host fun result _ => Faithful records result.1 := by
  induction events generalizing stream records host with
  | nil => exact faithful_nil records
  | cons event events ih =>
    obtain ⟨first, rest⟩ := List.forall_mem_cons.mp reading
    unfold play
    cases event with
    | call call =>
      rw [Ensures.bind_iff]
      apply (perform_spec holds first).mono
      rintro ⟨answer, stream'⟩ later told
      rw [Ensures.bind_iff]
      cases told with
      | onward fine more records_eq some holds' =>
        rw [records_eq]
        exact (ih holds' rest).mono fun _ _ faithful => faithful.onward fine more
      | ended said none_left =>
        refine (play_ended none_left rest).mono fun _ _ ends => faithful_of_ends ?_
        exact List.forall_mem_cons.mpr ⟨said, ends⟩
      | faulty told missing none_left =>
        exact (play_ended none_left rest).mono fun _ _ ends => faithful_of_fault told missing ends
    | outside change =>
      obtain ⟨path, length, rfl⟩ := first
      rw [Ensures.bind_iff, Ensures.onDisk_iff]
      exact ih (holds.stable (Disk.shrinks_shorten path length host.disk)) rest

end SortedStream

namespace Sorter

variable {compare : Comparison α}

/-- Records of a sorted source do not go missing quietly: whatever files are cut between requests, the stream
answers faithfully to what it gives when it is left alone. -/
theorem play_sortBy_faithful [RecordSource σ α ε] [ErrorText ε] [Std.TransCmp compare] {sorter : Sorter}
    {format : SpillFormat α} {source : σ} {records : List α} {own : Nat → Prop} {host later : Host}
    {stream : SortedStream σ α} {events : List StreamEvent} (roundTrips : format.RoundTrips) (sound : host.disk.Sound)
    (yields : Yields records source own host.disk)
    (sorted : (sorter.sortBy format compare source).run host = (.ok stream, later))
    (reading : ∀ event ∈ events, event.Reads) :
    (stream.collect later).1.1 = .ok (sorter.options.select (compare.stableSort records)) ∧
      Ensures (stream.play (ε := ε) events) later fun result _ =>
        Faithful (sorter.options.select (compare.stableSort records)) result.1 := by
  have untouched := (sortBy_spec False roundTrips sound yields).of_run sorted
  have holds := (sortBy_spec True roundTrips sound yields).of_run sorted
  exact ⟨SortedStream.collect_eq untouched, SortedStream.play_faithful holds reading⟩

/-- Five numbers in pages of two, with the first run cut within its second frame after one record. -/
theorem play_sortBy_faithful_words :
    Ensures (sortBy ⟨{ SorterOptions.standard with pageSize := 2 }, by decide⟩ .words Ord.compare
      (Script.ofRecords [3, 1, 2, 1, 0] : Script Int64 Empty)) (Host.fresh .empty) fun result later =>
        ∃ stream, result = .ok stream ∧ (stream.collect later).1.1 = .ok [0, 1, 1, 2, 3] ∧
          Ensures (stream.play (ε := Empty) [.call .next, .outside (Disk.shorten ⟨0, runName 0⟩ 30), .call .hasNext,
            .call .iterate, .call .next, .call .next]) later fun result _ =>
              Faithful [0, 1, 1, 2, 3] result.1 := by
  have sorted_eq : Comparison.stableSort Ord.compare [3, 1, 2, 1, 0] = ([0, 1, 1, 2, 3] : List Int64) := by
    simp +decide [Comparison.stableSort, List.mergeSort]
  have yields : Yields [3, 1, 2, 1, 0] (Script.ofRecords [3, 1, 2, 1, 0] : Script Int64 Empty) (fun _ => False)
      Disk.empty := yields_ofRecords _ _
  have reading : ∀ event ∈ ([.call .next, .outside (Disk.shorten ⟨0, runName 0⟩ 30), .call .hasNext, .call .iterate,
      .call .next, .call .next] : List StreamEvent), event.Reads := by
    have cut : ∃ path length, Disk.shorten ⟨0, runName 0⟩ 30 = Disk.shorten path length := ⟨_, _, rfl⟩
    simp [StreamEvent.Reads, cut]
  apply Ensures.intro
  intro result later ran
  obtain ⟨stream, rfl, -⟩ := (sortBy_succeeds SpillFormat.words_roundTrips Disk.sound_empty yields
    (.inr (SpillStore.accepts_words _))).of_run ran
  have faithful := play_sortBy_faithful SpillFormat.words_roundTrips Disk.sound_empty yields ran reading
  rw [sorted_eq] at faithful
  exact ⟨stream, rfl, faithful⟩

end Sorter

end SpillSort
