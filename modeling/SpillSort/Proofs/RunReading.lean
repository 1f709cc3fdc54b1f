import SpillSort.Proofs.DiskFrame
import SpillSort.Proofs.Ensures
import SpillSort.Proofs.FrameReading
import SpillSort.Sorter.Run

/-! # Reading runs back

A run tracks a list of records when they are what it still has to give: a page in memory holds them, and
a reader of a file has their frames before it in what the file once held. Pulling a run then takes the
first of them. Only where files may be cut can it fail instead, and then only while records are missing.
-/

namespace SpillSort

/-! ## Answers -/

/-- The answers that may be given where these records are still to come, with what is left then: the first
record, the end if there is none, or a fault in place of a record. -/
inductive Delivered {α ε : Type} (left : List α → Prop) (fault : ε → Prop) : List α → Option (Except ε α) → Prop
  | ended : left [] → Delivered left fault [] none
  | record {record : α} {rest : List α} : left rest → Delivered left fault (record :: rest) (some (.ok record))
  | faulty {error : ε} {records : List α} :
    fault error → records ≠ [] → Delivered left fault records (some (.error error))

/-- A fault that only a cut file brings about. -/
def CutOff (cut : Prop) (error : SpillError) : Prop := cut ∧ ∃ fault, error = .decode fault

/-! ## Removing spill files -/

theorem removeSpillFile_spec (path : SpillPath) (host : Host) :
    Ensures (removeSpillFile path) host fun answer later =>
      later.disk = (host.disk.remove path).2 ∧
        answer = if (host.disk.remove path).1 = .error .notFound then .ok () else (host.disk.remove path).1 := by
  simp only [removeSpillFile]
  rw [Ensures.bind_iff, Ensures.onDisk_iff]
  generalize host.disk.remove path = result
  obtain ⟨answer, disk⟩ := result
  match answer with
  | .ok () => exact ⟨rfl, rfl⟩
  | .error .notFound => exact ⟨rfl, rfl⟩
  | .error .alreadyExists => exact ⟨rfl, rfl⟩
  | .error .isDirectory => exact ⟨rfl, rfl⟩
  | .error .notDirectory => exact ⟨rfl, rfl⟩
  | .error .storageFull => exact ⟨rfl, rfl⟩
  | .error .nameTooLong => exact ⟨rfl, rfl⟩
  | .error (.other _) => exact ⟨rfl, rfl⟩

/-! ## Spilled runs -/

namespace SpillReader

variable {α : Type} {cut : Prop} {own : Nat → Prop}

/-- The records a reader of a file in an owned directory still has to give. -/
structure Tracks (cut : Prop) (own : Nat → Prop) (reader : SpillReader α) (records : List α) (disk : Disk) : Prop where
  owned : own reader.path.directory
  restores : reader.format.Restores
  remaining_eq : reader.remaining = records.length
  /-- Once the last record has been given the file no longer matters. -/
  frames : records ≠ [] → ∃ file whole, reader.file = some file ∧
    Frame.encodeAll reader.format records = .ok (file.unread whole) ∧ reader.left = (file.unread whole).length ∧
    file.node < disk.contents.size ∧ disk.content file.node <+: whole ∧ (¬ cut → disk.content file.node = whole)

theorem Tracks.stable {reader : SpillReader α} {records : List α} {before after : Disk}
    (tracks : reader.Tracks cut own records before) (shrinks : before.Shrinks cut after) :
    reader.Tracks cut own records after := by
  refine { tracks with frames := ?_ }
  intro more
  obtain ⟨file, whole, opened, encoded, left, known, part, intact⟩ := tracks.frames more
  refine ⟨file, whole, opened, encoded, left, Nat.lt_of_lt_of_le known shrinks.size_le,
    (shrinks.part _ known).trans part, ?_⟩
  intro uncut
  rw [shrinks.whole uncut _ known, intact uncut]

theorem finish_spec (reader : SpillReader α) (host : Host) :
    Ensures reader.finish host fun ended later =>
      ended = { reader with file := none } ∧
        (later.disk = host.disk ∨ later.disk = (host.disk.remove reader.path).2) := by
  simp only [finish]
  split
  · rw [Ensures.bind_iff]
    apply (removeSpillFile_spec reader.path host).mono
    intro answer later ⟨removed, _⟩
    cases answer with
    | ok => exact ⟨rfl, .inr removed⟩
    | error error => exact ⟨rfl, .inr removed⟩
  · exact ⟨rfl, .inl rfl⟩

theorem readRecord_spec {reader : SpillReader α} {record : α} {rest : List α} {file : BufferedFile} {disk : Disk}
    (tracks : reader.Tracks cut own (record :: rest) disk) (opened : reader.file = some file) :
    (∃ fault, (reader.readRecord file disk).1 = .error (.decode fault) ∧ cut) ∨
      (reader.readRecord file disk).1 = .ok record ∧ (reader.readRecord file disk).2.Tracks cut own rest disk := by
  obtain ⟨file', whole, opened', encoded, left, known, part, intact⟩ := tracks.frames (List.cons_ne_nil _ _)
  obtain rfl : file' = file := Option.some.inj (opened'.symm.trans opened)
  obtain ⟨frame, frames, first, others, unread_eq⟩ := Frame.encodeAll_cons_eq_ok encoded
  obtain ⟨payload, stored, small, rfl⟩ := Frame.encode_eq_ok first
  simp only [readRecord]
  rw [left]
  obtain ⟨gone, short⟩ | ⟨after, got, node_eq, behind⟩ := Frame.read_cases part small unread_eq
  · rw [gone]
    refine .inl ⟨_, rfl, ?_⟩
    exact Classical.byContradiction fun uncut => short (intact uncut)
  · rw [got]
    simp only [tracks.restores record payload stored small, true_and]
    refine .inr ⟨tracks.owned, tracks.restores, ?_, ?_⟩
    · simp [tracks.remaining_eq]
    · intro _
      refine ⟨after, whole, rfl, ?_, ?_, ?_, ?_, ?_⟩
      · rw [behind]
        exact others
      · rw [behind]
      · rwa [node_eq]
      · rwa [node_eq]
      · rwa [node_eq]

theorem next_spec {reader : SpillReader α} {records : List α} {host : Host}
    (tracks : reader.Tracks cut own records host.disk) :
    Ensures reader.next host fun result later =>
      host.disk.Within own later.disk ∧
        Delivered (fun rest => result.2.Tracks cut own rest later.disk) (CutOff cut) records result.1 := by
  simp only [next]
  have remaining_eq := tracks.remaining_eq
  cases records with
  | nil =>
    rw [List.length_nil] at remaining_eq
    rw [if_pos remaining_eq, Ensures.bind_iff]
    apply (reader.finish_spec host).mono
    intro ended later ⟨closed, effect⟩
    subst closed
    have within : host.disk.Within own later.disk := by
      rcases effect with same | removed
      · rw [same]
        exact .refl own host.disk
      · rw [removed]
        exact .remove tracks.owned
    exact ⟨within, .ended ⟨tracks.owned, tracks.restores, remaining_eq, fun more => (more rfl).elim⟩⟩
  | cons record rest =>
    rw [if_neg (by simp [remaining_eq])]
    obtain ⟨file, -, opened, -⟩ := tracks.frames (List.cons_ne_nil _ _)
    rw [opened]
    refine ⟨.refl own host.disk, ?_⟩
    obtain ⟨fault, failed, allowed⟩ | ⟨given, left⟩ := readRecord_spec tracks opened
    · change Delivered _ _ _ (some (reader.readRecord file host.disk).1)
      rw [failed]
      exact .faulty ⟨allowed, fault, rfl⟩ (List.cons_ne_nil _ _)
    · change Delivered _ _ _ (some (reader.readRecord file host.disk).1)
      rw [given]
      exact .record left

end SpillReader

/-! ## Runs -/

namespace RunReader

variable {α : Type} {cut : Prop} {own : Nat → Prop}

/-- The records a run still has to give. -/
def Tracks (cut : Prop) (own : Nat → Prop) (run : RunReader α) (records : List α) (disk : Disk) : Prop :=
  match run with
  | .memory page => page = records
  | .spilled reader => reader.Tracks cut own records disk

theorem Tracks.stable {run : RunReader α} {records : List α} {before after : Disk}
    (tracks : run.Tracks cut own records before) (shrinks : before.Shrinks cut after) :
    run.Tracks cut own records after := by
  cases run with
  | memory page => exact tracks
  | spilled reader => exact SpillReader.Tracks.stable tracks shrinks

theorem pull_spec {run : RunReader α} {records : List α} {host : Host}
    (tracks : run.Tracks cut own records host.disk) :
    Ensures run.pull host fun result later =>
      host.disk.Within own later.disk ∧
        Delivered (fun rest => result.2.Tracks cut own rest later.disk) (CutOff cut) records result.1 := by
  match run with
  | .memory [] =>
    obtain rfl : [] = records := tracks
    exact ⟨.refl own host.disk, .ended rfl⟩
  | .memory (record :: page) =>
    obtain rfl : record :: page = records := tracks
    exact ⟨.refl own host.disk, .record rfl⟩
  | .spilled reader =>
    simp only [pull]
    rw [Ensures.bind_iff]
    exact SpillReader.next_spec tracks

end RunReader

end SpillSort
