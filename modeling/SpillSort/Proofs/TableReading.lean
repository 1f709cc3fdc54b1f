import SpillSort.Proofs.Cleanup
import SpillSort.Proofs.Memory
import SpillSort.Proofs.TableRoundTrip

/-! # Tables as sources

A table that can be read to its end is a source of its features, and one that cannot makes every sort of it fail.
Reading a table does nothing on the temporary store.
-/

namespace SpillSort

variable {α : Type}

namespace TableReader

theorem readAll_of_error {reader reader' : TableReader} {error : TableError}
    (failed : reader.next = (.error error, reader')) : reader.readAll = (.error error, reader') := by
  rw [readAll]
  split
  · next read =>
    cases failed.symm.trans read
    rfl
  · next read => cases failed.symm.trans read
  · next read => cases failed.symm.trans read

/-- A table without features is at its end. -/
theorem next_of_readAll_nil {reader : TableReader} (all : reader.readAll.1 = .ok []) :
    ∃ reader', reader.next = (.ok none, reader') := by
  generalize read : reader.next = result
  obtain ⟨answer, reader'⟩ := result
  match answer with
  | .error error =>
    rw [readAll_of_error read] at all
    cases all
  | .ok none => exact ⟨reader', rfl⟩
  | .ok (some feature) =>
    rw [readAll_of_feature read] at all
    cases others : reader'.readAll.1 with
    | error error =>
      rw [others] at all
      cases all
    | ok features =>
      rw [others] at all
      cases all

/-- A table with features gives the first of them, and then the others. -/
theorem next_of_readAll_cons {reader : TableReader} {feature : Feature} {features : List Feature}
    (all : reader.readAll.1 = .ok (feature :: features)) :
    ∃ reader', reader.next = (.ok (some feature), reader') ∧ reader'.readAll.1 = .ok features := by
  generalize read : reader.next = result
  obtain ⟨answer, reader'⟩ := result
  match answer with
  | .error error =>
    rw [readAll_of_error read] at all
    cases all
  | .ok none =>
    rw [readAll_of_end read] at all
    cases all
  | .ok (some first) =>
    rw [readAll_of_feature read] at all
    cases others : reader'.readAll.1 with
    | error error =>
      rw [others] at all
      cases all
    | ok rest =>
      rw [others] at all
      cases all
      exact ⟨reader', rfl, others⟩

theorem yields_of_readAll {features : List Feature} {reader : TableReader} (all : reader.readAll.1 = .ok features)
    (disk : Disk) : Yields features reader (fun _ => False) disk := by
  induction features generalizing reader disk with
  | nil =>
    obtain ⟨reader', ended⟩ := next_of_readAll_nil all
    refine ⟨nofun, fun host _ sound => ⟨⟨.refl _ _, sound⟩, ?_⟩⟩
    exact congrArg Prod.fst ended
  | cons feature features ih =>
    obtain ⟨reader', given, others⟩ := next_of_readAll_cons all
    refine ⟨nofun, fun host _ sound => ⟨⟨.refl _ _, sound⟩, congrArg Prod.fst given, fun _ => False, nofun, ?_⟩⟩
    change Yields features reader.next.2 _ host.disk
    rw [given]
    exact ih others host.disk

/-- The features that can be read before the end, or the first error. -/
def readable (reader : TableReader) : List Feature :=
  match _read : reader.next with
  | (.ok (some feature), reader) => feature :: reader.readable
  | _ => []
termination_by reader.records.input.length
decreasing_by exact length_next _read

theorem readable_of_feature {reader reader' : TableReader} {feature : Feature}
    (given : reader.next = (.ok (some feature), reader')) : reader.readable = feature :: reader'.readable := by
  rw [readable]
  split
  · next read =>
    cases given.symm.trans read
    rfl
  · next other => exact absurd given (other _ _)

/-- If all can be read it is the features. -/
theorem readable_of_readAll {features : List Feature} {reader : TableReader} (all : reader.readAll.1 = .ok features) :
    reader.readable = features := by
  induction features generalizing reader with
  | nil =>
    obtain ⟨reader', ended⟩ := next_of_readAll_nil all
    rw [readable]
    split
    · next read => cases ended.symm.trans read
    · rfl
  | cons feature features ih =>
    obtain ⟨reader', given, others⟩ := next_of_readAll_cons all
    rw [readable_of_feature given, ih others]

theorem bounded : Bounds (fun reader : TableReader => reader.readable.length) := by
  intro reader host
  apply Ensures.intro
  rintro ⟨answer, reader'⟩ later ran feature rfl
  have given : reader.next = (.ok (some feature), reader') := congrArg Prod.fst ran
  dsimp only
  rw [readable_of_feature given]
  exact Nat.lt_succ_self _

theorem contained : Contained (σ := TableReader) fun _ _ => False where
  next _ _ sound := .refl sound
  close _ _ sound := .refl sound

theorem sparing : SparingSource TableReader := ⟨fun _ => .pure _, fun _ => .pure _⟩

end TableReader

/-- Filling fails where the rest of the table cannot be read. -/
theorem Filling.readAll_of_unreadable (plan : RunPlan Feature) {filling : Filling TableReader Feature}
    (unreadable : ∃ error, filling.source.readAll.1 = .error error) (host : Host) :
    Ensures (modifyGet (readAll plan filling)) host fun result _ => ∃ error, result.1 = .error error := by
  refine readAll_rule (fun filling _ => ∃ error, filling.source.readAll.1 = .error error) ?_ unreadable
  rintro filling start ⟨error, unreadable⟩
  apply Ensures.intro
  rintro ⟨answer, reader⟩ later ran
  have read : filling.source.next = (answer, reader) := congrArg Prod.fst ran
  match answer with
  | .error error => exact ⟨_, rfl⟩
  | .ok none =>
    rw [TableReader.readAll_of_end read] at unreadable
    cases unreadable
  | .ok (some feature) =>
    rw [TableReader.readAll_of_feature read] at unreadable
    have rest : ∃ error, reader.readAll.1 = .error error := by
      cases others : reader.readAll.1 with
      | error error => exact ⟨error, rfl⟩
      | ok features =>
        rw [others] at unreadable
        cases unreadable
    apply (accept_source plan { filling with source := reader } feature later).mono
    rintro ⟨accepted, fuller⟩ last same
    cases accepted with
    | error error => exact ⟨error, rfl⟩
    | ok =>
      change ∃ error, fuller.source.readAll.1 = .error error
      rwa [show fuller.source = reader from same]

end SpillSort
