import SpillSort.Sorter.Error
import SpillSort.Sorter.Run
import SpillSort.Source

/-! # Sorted streams

A sorted stream gives the sorted records of a source one at a time. It owns the source and the store
of its runs. The runs are removed at the end, at an error and with the last record of a limit; the
source is closed when the stream is closed. Everything asked of a closed stream is refused.
-/

namespace SpillSort

/-- Where a stream takes its records from. -/
inductive Phase (α : Type)
  /-- The whole source fit in one page. -/
  | memory (records : List α)
  | merging (merger : Merger (RunReader α) α SpillError)
  | exhausted
  | closed

namespace Phase

variable {α : Type}

/-- The next record of the phase. -/
def pull (compare : Comparison α) : Phase α → HostM (Option (Except SpillError α) × Phase α)
  | .memory [] => return (none, .memory [])
  | .memory (record :: records) => return (some (.ok record), .memory records)
  | .merging merger => do
    let (answer, merger) ← merger.next compare RunReader.pull
    return (answer, .merging merger)
  | .exhausted => return (none, .exhausted)
  | .closed => return (none, .closed)

/-- A bound on the records still to come. -/
def bound : Phase α → Nat
  | .memory records => records.length
  | .merging merger => merger.bound RunReader.bound
  | .exhausted => 0
  | .closed => 0

theorem bound_pull (compare : Comparison α) (phase : Phase α) (host : Host) :
    ((phase.pull compare).run host).1.2.bound
      + recordCount ((phase.pull compare).run host).1.1 ≤ phase.bound := by
  match phase with
  | .memory [] => exact Nat.le_refl _
  | .memory (_ :: _) => exact Nat.le_refl _
  | .merging merger => exact merger.bound_next compare RunReader.bound_pull host
  | .exhausted => exact Nat.le_refl _
  | .closed => exact Nat.le_refl _

end Phase

/-- Sorted records of a source of type `σ`. -/
structure SortedStream (σ α : Type) where
  phase : Phase α
  compare : Comparison α
  store : SpillStore
  source : σ
  /-- A record that was looked at and not yet taken. -/
  peeked : Option α
  /-- Records left to give when a limit is set. -/
  remaining : Option Nat
  spilledRuns : Nat

namespace SortedStream

variable {σ α ε : Type}

/-- Nothing was spilled. -/
def isInMemory (stream : SortedStream σ α) : Bool := stream.spilledRuns = 0

/-- Ends the stream: its runs are dropped and their files removed. The source stays open. -/
def finish (stream : SortedStream σ α) : HostM (SortedStream σ α) := do
  match stream.phase with
  | .exhausted => return stream
  | _ =>
    let store ← stream.store.discard
    return { stream with phase := .exhausted, store }

/-- What a stream does with the answer of its phase. -/
def settle (stream : SortedStream σ α) :
    Option (Except SpillError α) → HostM (Except (SortError ε) (Option α) × SortedStream σ α)
  | some (.ok record) => do
    let stream := { stream with remaining := stream.remaining.map (· - 1) }
    if stream.remaining = some 0 then return (.ok (some record), ← stream.finish)
    else return (.ok (some record), stream)
  | none => return (.ok none, ← stream.finish)
  | some (.error error) => do
    Host.report .error s!"sorted run reading failed: {error.message}"
    return (.error (.spillRead error), ← stream.finish)

/-- Takes the next record of the phase, unless the limit is used up. -/
def advance (stream : SortedStream σ α) :
    HostM (Except (SortError ε) (Option α) × SortedStream σ α) := do
  match stream.phase with
  | .closed => return (.error .usedAfterClose, stream)
  | phase =>
    if stream.remaining = some 0 then return (.ok none, stream)
    let (answer, phase) ← phase.pull stream.compare
    { stream with phase }.settle answer

/-- Whether there are records left. The next one may be read for that, and is kept. -/
def hasNext (stream : SortedStream σ α) :
    HostM (Except (SortError ε) Bool × SortedStream σ α) := do
  match stream.peeked with
  | some _ => return (.ok true, stream)
  | none =>
    match ← stream.advance with
    | (.error error, stream) => return (.error error, stream)
    | (.ok peeked, stream) => return (.ok peeked.isSome, { stream with peeked })

/-- The next record, or nothing when all have been given. -/
def next (stream : SortedStream σ α) :
    HostM (Except (SortError ε) (Option α) × SortedStream σ α) :=
  match stream.peeked with
  | some record => return (.ok (some record), { stream with peeked := none })
  | none => stream.advance

/-- Removes the runs and closes the source. Both are done whatever the other gives; an error of the
source counts first. -/
def close [RecordSource σ α ε] (stream : SortedStream σ α) :
    HostM (Except (SortError ε) Unit × SortedStream σ α) := do
  match stream.phase with
  | .closed => return (.error .usedAfterClose, stream)
  | _ =>
    let (disposed, store) ← stream.store.close
    let (closed, source) ← RecordSource.close stream.source
    let stream := { stream with phase := .closed, peeked := none, store, source }
    match closed, disposed with
    | .error error, _ => return (.error (.input error), stream)
    | .ok (), .error error => return (.error (.cleanup error), stream)
    | .ok (), .ok () => return (.ok (), stream)

/-- Closes a stream that nobody will use again, if it is still open; a failure is only logged. -/
def discard [RecordSource σ α ε] [ErrorText ε] (stream : SortedStream σ α) :
    HostM (SortedStream σ α) := do
  match stream.phase with
  | .closed => return stream
  | _ =>
    let (closed, stream) ← stream.close
    if let .error error := closed then
      Host.report .warn s!"sorted stream not closed cleanly: {SortError.message error}"
    return stream

/-- Takes and drops records, at most so many. -/
def skip : Nat → SortedStream σ α → HostM (Except (SortError ε) Unit × SortedStream σ α)
  | 0, stream => return (.ok (), stream)
  | count + 1, stream => do
    match ← stream.advance with
    | (.error error, stream) => return (.error error, stream)
    | (.ok none, stream) => return (.ok (), stream)
    | (.ok (some _), stream) => stream.skip count

/-! ## The bound of a stream -/

/-- The records still to come, not counting a limit. -/
def bound (stream : SortedStream σ α) : Nat :=
  stream.phase.bound + if stream.peeked.isSome then 1 else 0

theorem finish_run (stream : SortedStream σ α) (host : Host) :
    (stream.finish.run host).1.phase = .exhausted ∧
      (stream.finish.run host).1.peeked = stream.peeked := by
  unfold finish
  split
  · next ended => exact ⟨ended, rfl⟩
  · exact ⟨rfl, rfl⟩

theorem settle_run (stream : SortedStream σ α) (answer : Option (Except SpillError α))
    (host : Host) :
    (((stream.settle (ε := ε) answer).run host).1.2).phase.bound ≤ stream.phase.bound ∧
      (((stream.settle (ε := ε) answer).run host).1.2).peeked = stream.peeked ∧
      ∀ record, ((stream.settle (ε := ε) answer).run host).1.1 = .ok (some record) →
        answer = some (.ok record) := by
  have ended (s : SortedStream σ α) (h : Host) : (s.finish.run h).1.phase.bound ≤ s.phase.bound := by
    rw [(s.finish_run h).1]
    exact Nat.zero_le _
  match answer with
  | none =>
    refine ⟨ended stream host, (stream.finish_run host).2, ?_⟩
    intro record equal
    cases equal
  | some (.error error) =>
    refine ⟨ended stream _, (stream.finish_run _).2, ?_⟩
    intro record equal
    cases equal
  | some (.ok record) =>
    unfold settle
    dsimp only
    split
    · refine ⟨ended _ host, (finish_run _ host).2, ?_⟩
      intro record' equal
      cases equal
      rfl
    · refine ⟨Nat.le_refl _, rfl, ?_⟩
      intro record' equal
      cases equal
      rfl

theorem bound_advance (stream : SortedStream σ α) (host : Host) :
    ((stream.advance (ε := ε)).run host).1.2.phase.bound ≤ stream.phase.bound ∧
      ((stream.advance (ε := ε)).run host).1.2.peeked = stream.peeked ∧
      ∀ record, ((stream.advance (ε := ε)).run host).1.1 = .ok (some record) →
        ((stream.advance (ε := ε)).run host).1.2.phase.bound < stream.phase.bound := by
  unfold advance
  split
  · exact ⟨Nat.le_refl _, rfl, nofun⟩
  · split
    · exact ⟨Nat.le_refl _, rfl, nofun⟩
    · have pulled := stream.phase.bound_pull stream.compare host
      simp only [StateT.run_bind]
      generalize (stream.phase.pull stream.compare).run host = result at pulled ⊢
      obtain ⟨⟨answer, phase⟩, host'⟩ := result
      obtain ⟨bounded, kept, given⟩ := settle_run (ε := ε) { stream with phase } answer host'
      change phase.bound + recordCount answer ≤ _ at pulled
      change _ ≤ phase.bound at bounded
      refine ⟨Nat.le_trans bounded (by omega), kept, ?_⟩
      intro record equal
      obtain rfl := given record equal
      change phase.bound + 1 ≤ _ at pulled
      exact Nat.lt_of_le_of_lt bounded (by omega)

/-- Every record given lowers the bound. -/
theorem bound_next {stream stream' : SortedStream σ α} {record : α} {host host' : Host}
    (given : (stream.next (ε := ε)).run host = ((.ok (some record), stream'), host')) :
    stream'.bound < stream.bound := by
  unfold next at given
  split at given
  · next peeked found =>
    cases given
    unfold bound
    simp [found]
  · next found =>
    obtain ⟨_, kept, lowered⟩ := bound_advance (ε := ε) stream host
    rw [given] at kept lowered
    have less := lowered record rfl
    change stream'.peeked = stream.peeked at kept
    change stream'.phase.bound < stream.phase.bound at less
    unfold bound
    rw [kept]
    omega

end SortedStream

end SpillSort
