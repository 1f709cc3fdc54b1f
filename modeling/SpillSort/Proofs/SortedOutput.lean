import SpillSort.Proofs.Filling
import SpillSort.Proofs.StreamReading

/-! # What a sorter gives

A sort of a source gives a stream of the source's records in stable order, less the offset and up to the
limit. Where the pages are cut makes no difference to that, nor does whether anything was spilled.
-/

namespace SpillSort

variable {σ α ε : Type} {cut : Prop} {compare : Comparison α}

/-- The part of the sorted records that the offset and the limit leave. -/
def SorterOptions.select (options : SorterOptions) (records : List α) : List α :=
  upTo options.limit (records.drop options.offset)

/-- The records that come to be spilled, which are those of the full pages. -/
def SorterOptions.spilled (options : SorterOptions) (records : List α) : List α :=
  records.take (records.length / options.pageSize * options.pageSize)

/-- Less than a page is not spilled. -/
theorem SorterOptions.spilled_of_few {options : SorterOptions} {records : List α}
    (few : records.length < options.pageSize) : options.spilled records = [] := by
  rw [spilled, Nat.div_eq_of_lt few, Nat.zero_mul, List.take_zero]

/-- Whole pages from the front of the records are spilled. -/
theorem SorterOptions.prefix_spilled {options : SorterOptions} {full records : List α} (part : full <+: records)
    (whole : options.pageSize ∣ full.length) : full <+: options.spilled records := by
  refine List.prefix_take_iff.mpr ⟨part, ?_⟩
  obtain ⟨count, length_eq⟩ := whole
  rw [Nat.mul_comm] at length_eq
  rcases Nat.eq_zero_or_pos options.pageSize with zero | positive
  · rw [length_eq, zero]
    exact Nat.zero_le _
  · rw [length_eq]
    refine Nat.mul_le_mul_right _ ((Nat.le_div_iff_mul_le positive).mpr ?_)
    rw [← length_eq]
    exact part.length_le

namespace SortedStream

variable {stream : SortedStream σ α} {records : List α} {host : Host}

/-- An untouched stream without a limit can be given one. -/
theorem Holds.limit {disk : Disk} (holds : stream.Holds cut records disk) (nothing : stream.peeked = none)
    (unlimited : stream.remaining = none) (limit : Option Nat) :
    { stream with remaining := limit }.Holds cut (upTo limit records) disk := by
  obtain ⟨transitive, left, phase, records_eq⟩ := holds
  rw [nothing, unlimited] at records_eq
  obtain rfl : records = left := records_eq
  refine ⟨transitive, records, phase, ?_⟩
  change _ = stream.peeked.toList ++ _
  rw [nothing]
  rfl

/-- Skipping drops the first records. -/
theorem skip_spec {count : Nat} (holds : stream.Holds cut records host.disk) (nothing : stream.peeked = none)
    (unlimited : stream.remaining = none) :
    Ensures (stream.skip (ε := ε) count) host fun result later =>
      match result.1 with
      | .error _ => cut
      | .ok () => result.2.Holds cut (records.drop count) later.disk ∧ result.2.peeked = none ∧
          result.2.remaining = none := by
  induction count generalizing stream records host with
  | zero => exact ⟨holds, nothing, unlimited⟩
  | succ count ih =>
    simp only [skip]
    rw [Ensures.bind_iff]
    apply (advance_spec holds nothing).mono
    rintro ⟨answer, stream'⟩ later ⟨⟨nothing', unlimited'⟩, answered⟩
    dsimp only at nothing' unlimited' answered ⊢
    cases answered with
    | ended none_left => exact ⟨none_left, nothing', unlimited' unlimited⟩
    | record rest => exact ih rest nothing' (unlimited' unlimited)
    | faulty allowed missing none_left => exact allowed

/-- On files that nobody cuts a stream gives all it has, and then its end. -/
theorem collect_eq [RecordSource σ α ε] (holds : stream.Holds False records host.disk) :
    (stream.collect host).1.1 = .ok records := by
  induction records generalizing stream host with
  | nil =>
    unfold collect
    have given := next_spec (ε := ε) holds
    split
    · next ran =>
      have answered := given.of_run ran
      cases answered with
      | faulty impossible => exact impossible.elim
    · rfl
    · next ran =>
      have answered := given.of_run ran
      cases answered
  | cons record records ih =>
    unfold collect
    have given := next_spec (ε := ε) holds
    split
    · next ran =>
      have answered := given.of_run ran
      cases answered with
      | faulty impossible => exact impossible.elim
    · next ran =>
      have answered := given.of_run ran
      cases answered
    · next ran =>
      have answered := given.of_run ran
      cases answered with
      | record rest => simp only [ih rest, Except.map]

end SortedStream

namespace Sorter

/-- The stream made of what filling ended with has all records to give. -/
theorem openStream_holds [transitive : Std.TransCmp compare] {filling : Filling σ α} {outcome : Filling.Outcome α}
    {records : List α} {disk : Disk}
    (holds : outcome.Holds cut (filling.store.directory = some ·) compare records disk) :
    (openStream compare filling outcome).Holds cut (compare.stableSort records) disk := by
  cases outcome with
  | memory page => exact ⟨transitive, _, holds, rfl⟩
  | runs readers =>
    obtain ⟨lanes, tracked, ordered, sorted_eq⟩ := holds
    have merges : (Merger.new readers).Merges (RunReader.Tracks cut (filling.store.directory = some ·)) (CutOff cut)
        compare (compare.stableSort lanes.flatten) disk := Merger.merges_new tracked ordered
    rw [sorted_eq] at merges
    exact ⟨transitive, _, merges, rfl⟩

theorem position_spec [RecordSource σ α ε] [ErrorText ε] {sorter : Sorter} {stream : SortedStream σ α}
    {records : List α} {host : Host} (holds : stream.Holds cut records host.disk) (nothing : stream.peeked = none)
    (unlimited : stream.remaining = none) :
    Ensures (sorter.position stream) host fun result later =>
      match result with
      | .error _ => cut
      | .ok stream' => stream'.Holds cut (sorter.options.select records) later.disk := by
  refine position_rule fun start same => ?_
  rw [← same] at holds
  apply (SortedStream.skip_spec holds nothing unlimited).mono
  rintro ⟨answer, stream'⟩ later outcome
  cases answer with
  | error error =>
    dsimp only
    exact Ensures.intro fun _ _ _ => outcome
  | ok =>
    obtain ⟨holds', nothing', unlimited'⟩ := outcome
    exact holds'.limit nothing' unlimited' sorter.options.limit

/-- Sorting succeeds unless a page cannot be written or a file is cut on the way, and the stream has the sorted
records to give. -/
theorem sortBy_spec_of_restores [RecordSource σ α ε] [ErrorText ε] [Std.TransCmp compare] {sorter : Sorter}
    {format : SpillFormat α} {source : σ} {records : List α} {own : Nat → Prop} {host : Host} (cut : Prop)
    (restores : format.Restores) (sound : host.disk.Sound) (yields : Yields records source own host.disk) :
    Ensures (sorter.sortBy format compare source) host fun result later =>
      match result with
      | .error _ => cut ∨ ∃ full, full <+: records ∧ full ≠ [] ∧ sorter.options.pageSize ∣ full.length ∧
          ¬ (SpillStore.new sorter.options.place sorter.options.bufferSize).Accepts format full host.disk
      | .ok stream => stream.Holds cut (sorter.options.select (compare.stableSort records)) later.disk := by
  simp only [sortBy]
  rw [Ensures.bind_iff]
  have filled := @Filling.run_spec _ _ ε ⟨compare, format, sorter.options.pageSize⟩ own _ ‹_› records source
    sorter.options.place sorter.options.bufferSize host cut yields sound sorter.pageSize_pos restores
  apply filled.mono
  rintro ⟨answer, filling⟩ later outcome
  cases answer with
  | error error =>
    dsimp only
    rw [Ensures.bind_iff]
    exact Ensures.intro fun _ _ _ => .inr outcome
  | ok outcome' =>
    have nothing : (openStream compare filling outcome').peeked = none := by cases outcome' <;> rfl
    have unlimited : (openStream compare filling outcome').remaining = none := by cases outcome' <;> rfl
    apply (position_spec (openStream_holds outcome) nothing unlimited).mono
    intro result last positioned
    cases result with
    | error failure => exact .inl positioned
    | ok stream => exact positioned

theorem sortBy_spec [RecordSource σ α ε] [ErrorText ε] [Std.TransCmp compare] {sorter : Sorter}
    {format : SpillFormat α} {source : σ} {records : List α} {own : Nat → Prop} {host : Host} (cut : Prop)
    (roundTrips : format.RoundTrips) (sound : host.disk.Sound) (yields : Yields records source own host.disk) :
    Ensures (sorter.sortBy format compare source) host fun result later =>
      match result with
      | .error _ => cut ∨ ∃ full, full <+: records ∧ full ≠ [] ∧ sorter.options.pageSize ∣ full.length ∧
          ¬ (SpillStore.new sorter.options.place sorter.options.bufferSize).Accepts format full host.disk
      | .ok stream => stream.Holds cut (sorter.options.select (compare.stableSort records)) later.disk :=
  sortBy_spec_of_restores cut roundTrips.restores sound yields

/-- Sorting succeeds if the records that come to be spilled can be written and no file is touched. -/
theorem sortBy_succeeds_of_restores [RecordSource σ α ε] [ErrorText ε] [Std.TransCmp compare] {sorter : Sorter}
    {format : SpillFormat α} {source : σ} {records : List α} {own : Nat → Prop} {host : Host}
    (restores : format.Restores) (sound : host.disk.Sound) (yields : Yields records source own host.disk)
    (writable : sorter.options.spilled records = [] ∨
      (SpillStore.new sorter.options.place sorter.options.bufferSize).Accepts format (sorter.options.spilled records)
        host.disk) :
    Ensures (sorter.sortBy format compare source) host fun result later =>
      ∃ stream, result = .ok stream ∧
        stream.Holds False (sorter.options.select (compare.stableSort records)) later.disk := by
  apply (sortBy_spec_of_restores False restores sound yields).mono
  intro result later outcome
  cases result with
  | error failure =>
    obtain ⟨full, part, some, whole, refused⟩ := outcome.resolve_left id
    have among : full <+: sorter.options.spilled records := SorterOptions.prefix_spilled part whole
    rcases writable with nothing | accepts
    · rw [nothing] at among
      exact absurd (List.prefix_nil.mp among) some
    · have accepts' := accepts.fits
      exact absurd ⟨accepts.place, accepts.buffer, fun record present => accepts' record (among.subset present)⟩ refused
  | ok stream => exact ⟨stream, rfl, outcome⟩

theorem sortBy_succeeds [RecordSource σ α ε] [ErrorText ε] [Std.TransCmp compare] {sorter : Sorter}
    {format : SpillFormat α} {source : σ} {records : List α} {own : Nat → Prop} {host : Host}
    (roundTrips : format.RoundTrips) (sound : host.disk.Sound) (yields : Yields records source own host.disk)
    (writable : sorter.options.spilled records = [] ∨
      (SpillStore.new sorter.options.place sorter.options.bufferSize).Accepts format (sorter.options.spilled records)
        host.disk) :
    Ensures (sorter.sortBy format compare source) host fun result later =>
      ∃ stream, result = .ok stream ∧
        stream.Holds False (sorter.options.select (compare.stableSort records)) later.disk :=
  sortBy_succeeds_of_restores roundTrips.restores sound yields writable

/-- Where reading the source fails, sorting fails. -/
theorem sortBy_fails [RecordSource σ α ε] [ErrorText ε] {sorter : Sorter} {format : SpillFormat α} {source : σ}
    {host : Host}
    (failed : Ensures (modifyGet (Filling.readAll (ε := ε) ⟨compare, format, sorter.options.pageSize⟩
      (.start ⟨compare, format, sorter.options.pageSize⟩ source
        (.new sorter.options.place sorter.options.bufferSize)))) host fun result _ => ∃ error, result.1 = .error error) :
    Ensures (sorter.sortBy format compare source) host fun result _ => ∃ failure, result = .error failure := by
  simp only [sortBy, Filling.run]
  rw [Ensures.bind_iff, Ensures.bind_iff]
  apply failed.mono
  rintro ⟨answer, filling⟩ later ⟨error, rfl⟩
  exact ⟨_, rfl⟩

/-- With pages of one record, a first record that cannot be written makes sorting fail. -/
theorem sortBy_refusedFirst [RecordSource σ α ε] [ErrorText ε] {sorter : Sorter} {format : SpillFormat α}
    {source source' : σ} {record : α} {host : Host} (single : sorter.options.pageSize = 1)
    (first : (RecordSource.next source).run host = ((.ok (some record), source'), host))
    (refused : ∀ start : Host, start.disk = host.disk →
      Ensures ((SpillStore.new sorter.options.place sorter.options.bufferSize).write format [record]) start
        fun result _ => ∃ error, result.1 = .error error) :
    Ensures (sorter.sortBy format compare source) host fun result _ => ∃ failure, result = .error failure := by
  apply sortBy_fails
  have full : ((Page.empty sorter.options.pageSize).offer record).isFull := by
    simp [Page.isFull, Page.offer, Page.empty, Page.size, single]
  have sorted_eq : compare.stableSort ((Page.empty sorter.options.pageSize).offer record).toList = [record] := by
    rw [Page.toList_offer, Page.toList_empty]
    exact List.mergeSort_singleton record
  rw [Filling.readAll_eq, Ensures.bind_iff]
  refine Ensures.intro fun _ _ ran => ?_
  cases first.symm.trans ran
  change Ensures (Filling.accept _ _ _ >>= _) host _
  rw [Ensures.bind_iff]
  apply (Filling.accept_refused full (sorted_eq ▸ refused)).mono
  rintro ⟨answer, filling⟩ later ⟨error, rfl⟩
  exact ⟨_, rfl⟩

theorem sortBy_refused [ErrorText ε] {sorter : Sorter} {format : SpillFormat α} {record : α} {records : List α}
    (single : sorter.options.pageSize = 1)
    (refused : ∃ error,
      (SpillStore.new sorter.options.place sorter.options.bufferSize).dump format [record] = .error error)
    (host : Host) :
    Ensures (sorter.sortBy format compare (Script.ofRecords (record :: records) : Script α ε)) host fun result _ =>
      ∃ failure, result = .error failure := by
  obtain ⟨error, refused⟩ := refused
  exact sortBy_refusedFirst single rfl fun start _ => SpillStore.write_refused refused start

end Sorter

end SpillSort
