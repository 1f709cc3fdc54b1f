import SpillSort.Command.Run
import SpillSort.Proofs.Peeking
import SpillSort.Proofs.SortedOutput
import SpillSort.Proofs.TableRoundTrip

/-! # Saving sorted features

Sorted features are copied to a file until the stream ends, which is closed then, and what the file still holds back is
handed over last. A file on a device that has room takes everything, so only the stream can make that fail.
-/

namespace SpillSort

variable {ρ ω ε : Type}

/-! ## Files -/

namespace FileSink

variable {sink : FileSink}

theorem pass_eq (takes : sink.device ≠ .fullDevice) (bytes : Bytes) :
    sink.pass bytes = (.ok (), { sink with written := sink.written ++ bytes }) :=
  if_neg fun full => takes full.1

theorem flush_eq (takes : sink.device ≠ .fullDevice) :
    sink.flush = (.ok (), { sink with written := sink.written ++ sink.pending, pending := [] }) := by
  rw [flush, pass_eq takes]

theorem write_eq (takes : sink.device ≠ .fullDevice) (bytes : Bytes) :
    ∃ sink', sink.write bytes = (.ok (), sink') ∧ sink'.device ≠ .fullDevice ∧
      sink'.written ++ sink'.pending = sink.written ++ sink.pending ++ bytes := by
  -- Room is made first, which changes nothing of what was taken.
  have cleared : ∃ room, (if capacity < sink.pending.length + bytes.length then sink.flush else (.ok (), sink)) =
      (.ok (), room) ∧ room.device ≠ .fullDevice ∧ room.written ++ room.pending = sink.written ++ sink.pending ∧
        (capacity ≤ bytes.length → room.pending = []) := by
    split
    · rw [flush_eq takes]
      exact ⟨_, rfl, takes, List.append_nil _, fun _ => rfl⟩
    · next fits =>
      refine ⟨sink, rfl, takes, rfl, fun large => List.eq_nil_of_length_eq_zero ?_⟩
      omega
  obtain ⟨room, cleared, takes', same, emptied⟩ := cleared
  simp only [write, cleared]
  split
  · next large =>
    rw [pass_eq takes']
    refine ⟨_, rfl, takes', ?_⟩
    rw [← same, emptied large, List.append_nil, List.append_nil]
  · refine ⟨_, rfl, takes', ?_⟩
    rw [← same, List.append_assoc]

end FileSink

/-- A file takes everything unless its device has no room at all. -/
instance : LosslessSink FileSink where
  Takes sink := sink.device ≠ .fullDevice
  taken sink := sink.written ++ sink.pending
  passed := FileSink.written
  write_eq bytes takes := FileSink.write_eq takes bytes
  flush_eq takes := ⟨_, FileSink.flush_eq takes, rfl⟩

/-! ## Copying -/

/-- The records of some features, with so many attributes. -/
def rowsText (attributes : Nat) (features : List Feature) : Bytes :=
  features.flatMap fun feature => Table.recordText ((feature.cells attributes).map utf8Bytes)

theorem rowsText_concat (attributes : Nat) (features : List Feature) (feature : Feature) :
    rowsText attributes (features ++ [feature]) =
      rowsText attributes features ++ Table.recordText ((feature.cells attributes).map utf8Bytes) := by
  rw [rowsText, List.flatMap_append, List.flatMap_singleton, rowsText]

namespace Copy

variable [RecordSource ρ Feature ε] [Sink ω]

/-- Copying as steps: a feature is taken and written, and then the rest is copied. -/
theorem run_eq (copy : Copy ρ ω) :
    modifyGet (run (ε := ε) copy) = (do
      let (answer, source) ← RecordSource.next copy.source
      match answer with
      | .error error => return (.error (.reading error), { copy with source })
      | .ok none => return (.ok (), { copy with source })
      | .ok (some feature) =>
        match copy.writer.write feature with
        | (.error error, writer) => return (.error (.writing error), { copy with source, writer })
        | (.ok (), writer) =>
          modifyGet (run ⟨copy.written + 1, source, writer⟩) : HostM (Except (CopyError ε) Unit × Copy ρ ω)) := by
  apply StateT.ext
  intro host
  change run copy host = _
  unfold run
  rw [StateT.run_bind]
  split
  · next ran =>
    rw [ran]
    rfl
  · next ran =>
    rw [ran]
    rfl
  · next feature source later ran =>
    rw [ran]
    dsimp only [bind]
    generalize copy.writer.write feature = wrote
    obtain ⟨error | written, writer⟩ := wrote
    · rfl
    · rfl

/-- What every feature preserves holds until the source has ended or something has failed. -/
theorem run_rule (invariant : Copy ρ ω → Host → Prop) {post : Except (CopyError ε) Unit × Copy ρ ω → Host → Prop}
    (turn : ∀ copy host, invariant copy host → Ensures (RecordSource.next copy.source) host fun result later =>
      match result.1 with
      | .error error => post (.error (.reading error), { copy with source := result.2 }) later
      | .ok none => post (.ok (), { copy with source := result.2 }) later
      | .ok (some feature) =>
        match copy.writer.write feature with
        | (.error error, writer) => post (.error (.writing error), { copy with source := result.2, writer }) later
        | (.ok (), writer) => invariant ⟨copy.written + 1, result.2, writer⟩ later)
    {copy : Copy ρ ω} {host : Host} (holds : invariant copy host) : Ensures (modifyGet copy.run) host post := by
  induction bound : RecordSource.bound copy.source using Nat.strongRecOn generalizing copy host with
  | ind bound ih =>
    subst bound
    rw [run_eq, Ensures.bind_iff]
    apply ((turn copy host holds).and (Ensures.intro fun _ _ ran => ran)).mono
    rintro ⟨answer, source⟩ later ⟨outcome, ran⟩
    match answer with
    | .error error => exact outcome
    | .ok none => exact outcome
    | .ok (some feature) =>
      dsimp only at outcome ⊢
      generalize copy.writer.write feature = wrote at outcome ⊢
      obtain ⟨answer, writer⟩ := wrote
      cases answer with
      | error error => exact outcome
      | ok => exact ih _ (RecordSource.bound_lt ran) outcome rfl

end Copy

/-- Copying to a sink that takes everything fails only if the source does. `invariant` speaks of the features that have
been copied. -/
theorem Copy.run_lossless [RecordSource ρ Feature ε] [Sink ω] [LosslessSink ω]
    (invariant : List Feature → ρ → Host → Prop) {post : Except ε Unit → List Feature → ρ → Host → Prop}
    (turn : ∀ features source host, invariant features source host →
      Ensures (RecordSource.next source) host fun result later =>
        match result.1 with
        | .error error => post (.error error) features result.2 later
        | .ok none => post (.ok ()) features result.2 later
        | .ok (some feature) => invariant (features ++ [feature]) result.2 later)
    {copy : Copy ρ ω} {host : Host} {front : Bytes} (holds : invariant [] copy.source host)
    (within : copy.writer.records.Within front (some (copy.writer.attributes + 1)) []) :
    Ensures (modifyGet copy.run) host fun result later => ∃ answer features,
      result.1 = answer.mapError CopyError.reading ∧ post answer features result.2.source later ∧
        result.2.writer.records.Within (front ++ rowsText copy.writer.attributes features)
          (some (copy.writer.attributes + 1)) [] := by
  refine run_rule (fun copy' later => ∃ features, invariant features copy'.source later ∧
    copy'.writer.attributes = copy.writer.attributes ∧
      copy'.writer.records.Within (front ++ rowsText copy.writer.attributes features)
        (some (copy.writer.attributes + 1)) []) ?_ ⟨[], holds, rfl, ?_⟩
  · rintro copy' start ⟨features, holds', same, within'⟩
    apply (turn features copy'.source start holds').mono
    rintro ⟨answer, source⟩ later outcome
    match answer with
    | .error error => exact ⟨.error error, features, rfl, outcome, within'⟩
    | .ok none => exact ⟨.ok (), features, rfl, outcome, within'⟩
    | .ok (some feature) =>
      rw [← same] at within'
      obtain ⟨records, wrote, within''⟩ := copy'.writer.write_spec within' feature
      dsimp only
      rw [wrote]
      refine ⟨features ++ [feature], outcome, same, ?_⟩
      rw [rowsText_concat, ← List.append_assoc, ← same]
      exact within''
  · rwa [rowsText, List.flatMap_nil, List.append_nil]

/-! ## Saving -/

namespace SortedStream

variable {σ α : Type} {stream : SortedStream σ α} {records : List α} {host : Host}

/-- A stream that gives these records and can be closed. -/
structure Unspoilt (stream : SortedStream σ α) (records : List α) (disk : Disk) : Prop where
  holds : stream.Holds False records disk
  fit : stream.Fit disk

theorem Unspoilt.opened {disk : Disk} (unspoilt : stream.Unspoilt records disk) : stream.phase ≠ .closed := by
  obtain ⟨left, phase, -⟩ := unspoilt.holds.parts
  intro closed
  rw [closed] at phase
  exact phase

theorem next_unspoilt (unspoilt : stream.Unspoilt records host.disk) :
    Ensures (stream.next (ε := ε)) host fun result later =>
      Answered False (fun rest => result.2.Unspoilt rest later.disk) records result.1 := by
  apply ((next_spec unspoilt.holds).and (next_houses unspoilt.fit.housed host)).mono
  rintro ⟨answer, stream'⟩ later ⟨answered, houses⟩
  have fit := unspoilt.fit.houses houses
  cases answered with
  | ended holds => exact .ended ⟨holds, fit⟩
  | record holds => exact .record ⟨holds, fit⟩
  | faulty impossible => exact impossible.elim

theorem close_unspoilt {stream : SortedStream TableReader Feature} {features : List Feature}
    (unspoilt : stream.Unspoilt features host.disk) :
    Ensures stream.close host fun result _ => result.1 = .ok () := by
  apply (close_answer unspoilt.opened unspoilt.fit).mono
  rintro result later ⟨start, -, answer_eq⟩
  exact answer_eq

end SortedStream

/-- All features of an unspoilt stream are copied. -/
theorem Copy.run_unspoilt [Sink ω] [LosslessSink ω] {copy : Copy (SortedReader TableReader) ω} {features : List Feature}
    {front : Bytes} {host : Host} (unspoilt : copy.source.stream.Unspoilt features host.disk)
    (within : copy.writer.records.Within front (some (copy.writer.attributes + 1)) []) :
    Ensures (modifyGet copy.run) host fun result later =>
      result.1 = .ok () ∧ result.2.source.stream.Unspoilt [] later.disk ∧
        result.2.writer.records.Within (front ++ rowsText copy.writer.attributes features)
          (some (copy.writer.attributes + 1)) [] := by
  have copied := @run_lossless _ ω _ _ _ _
    (fun copied source later => ∃ rest, features = copied ++ rest ∧ source.stream.Unspoilt rest later.disk)
    (fun answer copied source later => answer = .ok () ∧ features = copied ∧ source.stream.Unspoilt [] later.disk) ?_
    copy host front ⟨features, rfl, unspoilt⟩ within
  · apply copied.mono
    rintro ⟨answer, copy'⟩ later ⟨_, _, rfl, ⟨rfl, rfl, unspoilt'⟩, within'⟩
    exact ⟨rfl, unspoilt', within'⟩
  · rintro copied source start ⟨rest, all, unspoilt⟩
    simp only [RecordSource.next]
    rw [Ensures.bind_iff]
    apply (SortedStream.next_unspoilt unspoilt).mono
    rintro ⟨answer, stream⟩ later answered
    cases answered with
    | ended unspoilt' => exact ⟨trivial, all.trans (List.append_nil _), unspoilt'⟩
    | @record feature rest unspoilt' => exact ⟨rest, by simp [all], unspoilt'⟩
    | faulty impossible => exact impossible.elim

/-- Features from an unspoilt stream are saved as the text of their table. -/
theorem Command.save_spec (options : Options) {sorted : SortedReader TableReader} {features : List Feature}
    {sink : FileSink} {host : Host} (takes : LosslessSink.Takes sink) (fresh : LosslessSink.taken sink = [])
    (unspoilt : sorted.stream.Unspoilt features host.disk) :
    Ensures (save options sorted sink) host fun result _ =>
      result.1 = .ok () ∧ result.2.written = tableText sorted.schema features := by
  obtain ⟨records, titled, within⟩ := TableWriter.new_spec takes fresh sorted.schema
  simp only [save, titled]
  rw [Ensures.bind_iff]
  have copied := @Copy.run_unspoilt _ _ _ ⟨0, sorted, ⟨records, sorted.schema.fields.length⟩⟩ _ _ _ unspoilt within
  apply copied.mono
  rintro ⟨answer, copy⟩ later ⟨rfl, unspoilt', within'⟩
  dsimp only
  rw [Ensures.bind_iff]
  simp only [RecordSource.close]
  rw [Ensures.bind_iff]
  apply (SortedStream.close_unspoilt unspoilt').mono
  rintro ⟨_, stream⟩ last rfl
  obtain ⟨records', flushed, passed⟩ := copy.writer.flush_spec within'
  rw [Ensures.pure_iff]
  dsimp only
  rw [flushed, Ensures.bind_iff]
  exact Ensures.report fun _ _ => ⟨rfl, passed⟩

end SpillSort
