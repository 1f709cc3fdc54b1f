import SpillSort.Proofs.Loops
import SpillSort.Proofs.Merging

/-! # Records a stream still has to give

What a stream gives next follows from the records it holds: those of its phase, as many as the limit still
allows, and before them the one that was looked at. The first of them is given, or there is none, or one of
the files was cut and the stream has ended with an error in place of a record.
-/

namespace SpillSort

variable {σ α ε : Type} {cut : Prop} {own : Nat → Prop} {compare : Comparison α}

/-! ## Phases -/

/-- Merged runs only touch the directory they are in. -/
theorem RunReader.supplies (cut : Prop) (own : Nat → Prop) :
    Supplies (α := α) RunReader.pull (RunReader.Tracks cut own) (CutOff cut) (Disk.Within own) where
  refl := .refl own
  trans first second := first.trans second fun _ => .inl
  stable tracks within := RunReader.Tracks.stable tracks (within.shrinks cut)
  pull := RunReader.pull_spec

namespace Phase

/-- The records a phase still has to give. -/
def Holds (cut : Prop) (own : Nat → Prop) (compare : Comparison α) (records : List α) (disk : Disk) : Phase α → Prop
  | .memory page => page = records
  | .merging merger => merger.Merges (RunReader.Tracks cut own) (CutOff cut) compare records disk
  | .exhausted => records = []
  | .closed => False

theorem Holds.stable {phase : Phase α} {records : List α} {before after : Disk}
    (holds : phase.Holds cut own compare records before) (shrinks : before.Shrinks cut after) :
    phase.Holds cut own compare records after := by
  cases phase with
  | memory page => exact holds
  | merging merger => exact Merger.Merges.stable holds fun _ _ tracks => RunReader.Tracks.stable tracks shrinks
  | exhausted => exact holds
  | closed => exact holds

theorem pull_spec [Std.TransCmp compare] {phase : Phase α} {records : List α} {host : Host}
    (holds : phase.Holds cut own compare records host.disk) :
    Ensures (phase.pull compare) host fun result later =>
      host.disk.Within own later.disk ∧
        Delivered (fun rest => result.2.Holds cut own compare rest later.disk) (CutOff cut) records result.1 := by
  match phase with
  | .memory [] =>
    obtain rfl : [] = records := holds
    exact ⟨.refl _ _, .ended rfl⟩
  | .memory (record :: page) =>
    obtain rfl : record :: page = records := holds
    exact ⟨.refl _ _, .record rfl⟩
  | .merging merger =>
    simp only [pull]
    rw [Ensures.bind_iff]
    exact Merger.Merges.next (RunReader.supplies cut own) holds
  | .exhausted =>
    obtain rfl : records = [] := holds
    exact ⟨.refl _ _, .ended rfl⟩
  | .closed => exact holds.elim

end Phase

/-! ## Streams -/

/-- The first records, as many as a limit allows. -/
def upTo (limit : Option Nat) (records : List α) : List α :=
  match limit with
  | none => records
  | some limit => records.take limit

@[simp] theorem upTo_nil (limit : Option Nat) : upTo limit ([] : List α) = [] := by
  cases limit <;> simp [upTo]

theorem upTo_cons {limit : Option Nat} (positive : limit ≠ some 0) (record : α) (records : List α) :
    upTo limit (record :: records) = record :: upTo (limit.map (· - 1)) records := by
  match limit with
  | none => rfl
  | some 0 => exact absurd rfl positive
  | some (limit + 1) => rfl

theorem upTo_ne_nil {limit : Option Nat} {records : List α} (positive : limit ≠ some 0) (some : records ≠ []) :
    upTo limit records ≠ [] := by
  cases records with
  | nil => exact absurd rfl some
  | cons record records =>
    rw [upTo_cons positive]
    exact List.cons_ne_nil _ _

/-- The answers to a request for a record where these are still to come, with what is left then: the first of
them, the end if there is none, or that a file was cut, with nothing left. -/
inductive Answered (cut : Prop) (left : List α → Prop) : List α → Except (SortError ε) (Option α) → Prop
  | ended : left [] → Answered cut left [] (.ok none)
  | record {record : α} {rest : List α} : left rest → Answered cut left (record :: rest) (.ok (some record))
  | faulty {fault : RunFault} {records : List α} : cut → records ≠ [] → left [] →
    Answered cut left records (.error (.spillRead (.decode fault)))

namespace SortedStream

/-- The records a stream still has to give. -/
structure Holds (cut : Prop) (stream : SortedStream σ α) (records : List α) (disk : Disk) : Prop where
  transitive : Std.TransCmp stream.compare
  parts : ∃ left, stream.phase.Holds cut (stream.store.directory = some ·) stream.compare left disk ∧
    records = stream.peeked.toList ++ upTo stream.remaining left

variable {stream : SortedStream σ α} {records : List α} {host : Host}

theorem Holds.stable {before after : Disk} (holds : stream.Holds cut records before)
    (shrinks : before.Shrinks cut after) : stream.Holds cut records after := by
  obtain ⟨transitive, left, phase, records_eq⟩ := holds
  exact ⟨transitive, left, phase.stable shrinks, records_eq⟩

theorem finish_spec (stream : SortedStream σ α) (host : Host) :
    Ensures stream.finish host fun ended _ => ∃ store, ended = { stream with phase := .exhausted, store } := by
  simp only [finish]
  split
  · next ended => exact ⟨stream.store, by rw [← ended]; rfl⟩
  · exact ⟨_, rfl⟩

private theorem finish_holds (cut : Prop) (stream : SortedStream σ α) (host : Host)
    (transitive : Std.TransCmp stream.compare) (nothing : stream.peeked = none) :
    Ensures stream.finish host fun ended later => ended.Holds cut [] later.disk ∧ ended.peeked = none ∧
      ended.remaining = stream.remaining := by
  apply (stream.finish_spec host).mono
  rintro ended later ⟨store, rfl⟩
  refine ⟨⟨transitive, [], rfl, ?_⟩, nothing, rfl⟩
  rw [nothing, upTo_nil]
  rfl

theorem settle_spec {answer : Option (Except SpillError α)} {left : List α}
    (transitive : Std.TransCmp stream.compare) (nothing : stream.peeked = none) (more : stream.remaining ≠ some 0)
    (delivered : Delivered (fun rest => stream.phase.Holds cut (stream.store.directory = some ·) stream.compare rest
      host.disk) (CutOff cut) left answer) :
    Ensures (stream.settle (ε := ε) answer) host fun result later =>
      (result.2.peeked = none ∧ (stream.remaining = none → result.2.remaining = none)) ∧
        Answered cut (fun rest => result.2.Holds cut rest later.disk) (upTo stream.remaining left) result.1 := by
  cases delivered with
  | ended none_left =>
    simp only [settle]
    rw [Ensures.bind_iff]
    apply (finish_holds cut stream host transitive nothing).mono
    rintro ended later ⟨holds, nothing', same⟩
    rw [upTo_nil]
    exact ⟨⟨nothing', fun unlimited => same.trans unlimited⟩, .ended holds⟩
  | @record record rest holds =>
    rw [upTo_cons more]
    simp only [settle]
    split
    · next last =>
      rw [Ensures.bind_iff]
      have finished :=
        finish_holds cut { stream with remaining := stream.remaining.map (· - 1) } host transitive nothing
      apply finished.mono
      rintro ended later ⟨holds', nothing', same⟩
      have enough : upTo (stream.remaining.map (· - 1)) rest = [] := by
        rw [last]
        rfl
      rw [enough]
      refine ⟨⟨nothing', fun unlimited => ?_⟩, .record holds'⟩
      rw [unlimited] at last
      cases last
    · refine ⟨⟨nothing, fun unlimited => ?_⟩, .record ⟨transitive, rest, holds, ?_⟩⟩
      · change stream.remaining.map (· - 1) = none
        rw [unlimited]
        rfl
      · change _ = stream.peeked.toList ++ _
        rw [nothing]
        rfl
  | @faulty error records failed missing =>
    obtain ⟨allowed, fault, rfl⟩ := failed
    simp only [settle]
    rw [Ensures.bind_iff]
    apply Ensures.report
    intro start _
    rw [Ensures.bind_iff]
    apply (finish_holds cut stream start transitive nothing).mono
    rintro ended later ⟨holds, nothing', same⟩
    exact ⟨⟨nothing', fun unlimited => same.trans unlimited⟩, .faulty allowed (upTo_ne_nil more missing) holds⟩

/-- Where no record was looked at, a request goes to the phase. -/
theorem advance_spec (holds : stream.Holds cut records host.disk) (nothing : stream.peeked = none) :
    Ensures (stream.advance (ε := ε)) host fun result later =>
      (result.2.peeked = none ∧ (stream.remaining = none → result.2.remaining = none)) ∧
        Answered cut (fun rest => result.2.Holds cut rest later.disk) records result.1 := by
  have transitive := holds.transitive
  obtain ⟨left, phase, records_eq⟩ := holds.parts
  rw [nothing, Option.toList_none, List.nil_append] at records_eq
  simp only [advance]
  split
  · next closed =>
    rw [closed] at phase
    exact phase.elim
  · split
    · next finished =>
      have none_left : records = [] := by
        rw [records_eq, finished]
        rfl
      subst none_left
      exact ⟨⟨nothing, id⟩, .ended holds⟩
    · next more =>
      rw [records_eq, Ensures.bind_iff]
      apply (Phase.pull_spec phase).mono
      rintro ⟨answer, phase'⟩ later ⟨-, delivered⟩
      have settled := @settle_spec _ _ ε _ { stream with phase := phase' } later _ _ transitive nothing more delivered
      exact settled

/-- A request is answered with the first record that is left. -/
theorem next_spec (holds : stream.Holds cut records host.disk) :
    Ensures (stream.next (ε := ε)) host fun result later =>
      Answered cut (fun rest => result.2.Holds cut rest later.disk) records result.1 := by
  simp only [next]
  split
  · next record looked =>
    obtain ⟨left, phase, rfl⟩ := holds.parts
    rw [looked]
    exact .record ⟨holds.transitive, left, phase, rfl⟩
  · next nothing => exact (advance_spec holds nothing).mono fun _ _ outcome => outcome.2

/-- Looking ahead tells whether a record is left, and does not take it. -/
theorem hasNext_spec (holds : stream.Holds cut records host.disk) :
    Ensures (stream.hasNext (ε := ε)) host fun result later =>
      match result.1 with
      | .ok more => (more = true ↔ records ≠ []) ∧ result.2.Holds cut records later.disk
      | .error error =>
        Answered (α := α) cut (fun rest => result.2.Holds cut rest later.disk) records (.error error) := by
  simp only [hasNext]
  split
  · next record looked =>
    obtain ⟨left, phase, rfl⟩ := holds.parts
    refine ⟨?_, holds⟩
    rw [looked]
    simp
  · next nothing =>
    rw [Ensures.bind_iff]
    apply (advance_spec holds nothing).mono
    rintro ⟨answer, stream'⟩ later ⟨⟨nothing', -⟩, answered⟩
    dsimp only at nothing' answered ⊢
    cases answered with
    | ended none_left =>
      refine ⟨by simp, ?_⟩
      obtain ⟨transitive, left, phase, records_eq⟩ := none_left
      refine ⟨transitive, left, phase, ?_⟩
      rw [nothing'] at records_eq
      exact records_eq
    | @record record rest holds' =>
      refine ⟨by simp, ?_⟩
      obtain ⟨transitive, left, phase, records_eq⟩ := holds'
      refine ⟨transitive, left, phase, ?_⟩
      rw [nothing'] at records_eq
      exact congrArg (record :: ·) records_eq
    | faulty allowed missing none_left => exact .faulty allowed missing none_left

end SortedStream

end SpillSort
