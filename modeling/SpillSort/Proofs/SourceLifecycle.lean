import SpillSort.Proofs.Memory
import SpillSort.SortedReader

/-! # Sources are closed once

Whoever hands a source over for sorting need not care for it any more. It is read until it has no more
records or fails, and never again, and it is closed exactly once: when sorting fails, when the stream is
closed, or at the latest when the stream is dropped. This is so whatever the source, the temporary store and
the user of the stream do. A sort that is given up for want of a write buffer does not come back: it neither
fails nor gives a stream, and drops its source open.
-/

namespace SpillSort

variable {σ ρ α ε : Type}

/-! ## Sources under observation -/

/-- What was asked of a source and how it came out. -/
inductive SourceEvent
  | gave
  | ended
  | failed
  | closed
deriving DecidableEq, Repr

/-- How a request for a record came out. -/
def SourceEvent.ofAnswer : Except ε (Option α) → SourceEvent
  | .ok (some _) => .gave
  | .ok none => .ended
  | .error _ => .failed

/-- A source with what has been asked of it, the first request first. -/
structure Observed (σ : Type) where
  source : σ
  events : List SourceEvent

instance [RecordSource σ α ε] : RecordSource (Observed σ) α ε where
  next observed := do
    let (answer, source) ← RecordSource.next observed.source
    return (answer, ⟨source, observed.events ++ [.ofAnswer answer]⟩)
  close observed := do
    let (answer, source) ← RecordSource.close observed.source
    return (answer, ⟨source, observed.events ++ [.closed]⟩)
  bound observed := RecordSource.bound observed.source
  bound_lt {observed observed' record host host'} read := by
    simp only [StateT.run_bind, StateT.run_pure] at read
    generalize step : (RecordSource.next observed.source).run host = result at read
    obtain ⟨⟨answer, source⟩, after⟩ := result
    cases read
    exact RecordSource.bound_lt step

instance [FeatureReader ρ ε] : FeatureReader (Observed ρ) ε where
  schema observed := FeatureReader.schema observed.source

/-- Every request so far gave a record, so there may be more of them. -/
def Unread (events : List SourceEvent) : Prop := ∀ event ∈ events, event = .gave

/-- The source was not closed yet, and was asked for nothing after its end or a failure. -/
structure StillOpen (events : List SourceEvent) : Prop where
  open_yet : .closed ∉ events
  ordered : events.Pairwise fun earlier later => earlier = .gave ∨ later = .closed

/-- The source was closed exactly once, and was asked for nothing after that, its end or a failure. -/
structure ClosedOnce (events : List SourceEvent) : Prop where
  once : events.count .closed = 1
  ordered : events.Pairwise fun earlier later => earlier = .gave ∨ later = .closed

theorem Unread.stillOpen {events : List SourceEvent} (unread : Unread events) : StillOpen events := by
  refine ⟨fun present => ?_, ?_⟩
  · cases unread _ present
  · exact List.pairwise_of_forall_mem_list fun earlier present _ _ => .inl (unread earlier present)

/-- A source that only gave records may be asked for another. -/
theorem Unread.asked {events : List SourceEvent} (unread : Unread events) (answer : Except ε (Option α)) :
    StillOpen (events ++ [.ofAnswer answer]) := by
  constructor
  · intro present
    rcases List.mem_append.mp present with before | now
    · cases unread _ before
    · rw [List.mem_singleton] at now
      match answer with
      | .ok (some _) => cases now
      | .ok none => cases now
      | .error _ => cases now
  · refine List.pairwise_append.mpr ⟨unread.stillOpen.ordered, List.pairwise_singleton .., ?_⟩
    exact fun earlier present _ _ => .inl (unread earlier present)

theorem Unread.gave {events : List SourceEvent} (unread : Unread events) : Unread (events ++ [.gave]) := by
  intro event present
  rcases List.mem_append.mp present with before | now
  · exact unread event before
  · exact List.mem_singleton.mp now

/-- A source that is still open may be closed. -/
theorem StillOpen.closed {events : List SourceEvent} (stillOpen : StillOpen events) :
    ClosedOnce (events ++ [.closed]) := by
  constructor
  · rw [List.count_append, List.count_eq_zero.mpr stillOpen.open_yet]
    rfl
  · refine List.pairwise_append.mpr ⟨stillOpen.ordered, List.pairwise_singleton .., ?_⟩
    exact fun _ _ later present => .inr (List.mem_singleton.mp present)

theorem close_observed [RecordSource σ α ε] {source : Observed σ} (stillOpen : StillOpen source.events) (host : Host) :
    Ensures (RecordSource.close source) host fun result _ => ClosedOnce result.2.events := by
  change Ensures (RecordSource.close source.source >>= _) host _
  rw [Ensures.bind_iff]
  exact Ensures.intro fun _ _ _ => stillOpen.closed

/-! ## Filling -/

/-- Reading stops at the end and at the first failure. -/
theorem Filling.readAll_stillOpen [RecordSource σ α ε] {plan : RunPlan α} {filling : Filling (Observed σ) α}
    (unread : Unread filling.source.events) (host : Host) :
    Ensures (modifyGet (readAll (ε := ε) plan filling)) host fun result _ => StillOpen result.2.source.events := by
  refine readAll_rule (fun filling _ => Unread filling.source.events) ?_ unread
  intro filling start unread'
  change Ensures (RecordSource.next filling.source.source >>= _) start _
  rw [Ensures.bind_iff]
  apply Ensures.intro
  rintro ⟨answer, source⟩ later -
  rw [Ensures.pure_iff]
  have asked := unread'.asked answer
  match answer with
  | .error error => exact asked
  | .ok none => exact asked
  | .ok (some record) =>
    dsimp only
    let observed : Observed σ := ⟨source, filling.source.events ++ [.gave]⟩
    apply (accept_source plan { filling with source := observed } record later).mono
    rintro ⟨accepted, fuller⟩ last same
    have gave : Unread fuller.source.events := same ▸ unread'.gave
    cases accepted with
    | error error => exact gave.stillOpen
    | ok => exact gave

theorem Filling.run_stillOpen [RecordSource σ α ε] (plan : RunPlan α) {source : Observed σ} (store : SpillStore)
    (unread : Unread source.events) (host : Host) :
    Ensures (Filling.run plan source store) host fun result _ => StillOpen result.2.source.events := by
  simp only [run]
  rw [Ensures.bind_iff]
  apply (readAll_stillOpen unread host).mono
  rintro ⟨answer, filling⟩ later stillOpen
  cases answer with
  | error error => exact stillOpen
  | ok =>
    rw [Ensures.bind_iff]
    exact Ensures.intro fun _ _ _ => stillOpen

/-! ## Streams -/

/-- The source of a closed stream was closed once, and that of an open one not yet. -/
structure Tended (stream : SortedStream (Observed σ) α) : Prop where
  closed : stream.phase = .closed → ClosedOnce stream.source.events
  opened : stream.phase ≠ .closed → StillOpen stream.source.events

theorem Tended.onward {before after : SortedStream (Observed σ) α} (tended : Tended before)
    (onward : SortedStream.Onward before after) : Tended after := by
  constructor
  · intro closed
    rw [onward.source_eq]
    exact tended.closed (onward.closed_iff.mp closed)
  · intro opened
    rw [onward.source_eq]
    exact tended.opened (opened ∘ onward.closed_iff.mpr)

namespace SortedStream

variable [RecordSource σ α ε] {stream : SortedStream (Observed σ) α}

/-- Closing closes the source of a stream that is open, and no other. -/
theorem close_tended (tended : Tended stream) (host : Host) :
    Ensures (stream.close (ε := ε)) host fun result _ => result.2.phase = .closed ∧ Tended result.2 := by
  simp only [close]
  split
  · next closed => exact ⟨closed, tended⟩
  · next opened =>
    rw [Ensures.bind_iff]
    apply Ensures.intro
    rintro ⟨disposed, store⟩ middle -
    dsimp only
    rw [Ensures.bind_iff]
    apply (close_observed (tended.opened opened) middle).mono
    rintro ⟨closed, source⟩ later once
    cases closed with
    | error error => exact ⟨rfl, fun _ => once, fun opened' => absurd rfl opened'⟩
    | ok =>
      cases disposed with
      | error error => exact ⟨rfl, fun _ => once, fun opened' => absurd rfl opened'⟩
      | ok => exact ⟨rfl, fun _ => once, fun opened' => absurd rfl opened'⟩

theorem perform_tended (tended : Tended stream) (call : StreamCall) (host : Host) :
    Ensures (stream.perform (ε := ε) call) host fun result _ => Tended result.2 := by
  cases call with
  | hasNext => exact (stream.hasNext_onward host).mono fun _ _ onward => tended.onward onward
  | next => exact (stream.next_onward host).mono fun _ _ onward => tended.onward onward
  | iterate => exact (stream.next_onward host).mono fun _ _ onward => tended.onward onward
  | close => exact (close_tended tended host).mono fun _ _ outcome => outcome.2

theorem play_tended (tended : Tended stream) (events : List StreamEvent) (host : Host) :
    Ensures (stream.play (ε := ε) events) host fun result _ => Tended result.2 :=
  play_rule (fun stream _ => Tended stream) (fun call _ host _ tended' => perform_tended tended' call host)
    (fun _ _ _ _ tended' => tended') tended

/-- Dropping a stream closes its source if that was not done before. -/
theorem discard_tended [ErrorText ε] (tended : Tended stream) (host : Host) :
    Ensures (stream.discard (ε := ε)) host fun dropped _ => ClosedOnce dropped.source.events := by
  simp only [discard]
  split
  · next closed => exact tended.closed closed
  · rw [Ensures.bind_iff]
    apply (close_tended tended host).mono
    rintro ⟨answer, stream'⟩ later ⟨closed, tended'⟩
    cases answer with
    | error error => exact tended'.closed closed
    | ok => exact tended'.closed closed

end SortedStream

/-! ## Sorting -/

/-- How a sort without a stream lets go of its source, given the size of the write buffer that was asked for. -/
structure LetsGo (bufferSize : Option Nat) (failure : SortFailure (Observed σ) ε) : Prop where
  failed : failure.error.lacksBuffer = false → ClosedOnce failure.source.events
  givenUp : failure.error.lacksBuffer = true → StillOpen failure.source.events
  /-- Sorting is given up only where there is no such buffer. -/
  lacking : failure.error.lacksBuffer = true → BufferedFile.capacityLimit < bufferCapacity bufferSize

/-- When sorting has failed, or when the stream it gave has been used in any way and dropped, the source was
closed exactly once. It is still open where sorting was given up, for want of a write buffer of the size. -/
def ClosesOnce [RecordSource σ α ε] [ErrorText ε] (bufferSize : Option Nat)
    (sorting : HostM (Except (SortFailure (Observed σ) ε) (SortedStream (Observed σ) α))) (host : Host) : Prop :=
  Ensures sorting host fun result later =>
    match result with
    | .error failure => LetsGo bufferSize failure
    | .ok stream => ∀ events, Ensures (stream.play (ε := ε) events) later fun used last =>
        Ensures (used.2.discard (ε := ε)) last fun dropped _ => ClosedOnce dropped.source.events

/-- A failure that is not for want of a buffer closes the source. -/
theorem LetsGo.of_closedOnce {bufferSize : Option Nat} {failure : SortFailure (Observed σ) ε}
    (there : failure.error.lacksBuffer = false) (once : ClosedOnce failure.source.events) : LetsGo bufferSize failure := by
  have failed (givenUp : failure.error.lacksBuffer = true) : False :=
    Bool.false_ne_true (there.symm.trans givenUp)
  exact ⟨fun _ => once, fun givenUp => (failed givenUp).elim, fun givenUp => (failed givenUp).elim⟩

theorem closesOnce_of_tended [RecordSource σ α ε] [ErrorText ε] {bufferSize : Option Nat}
    {sorting : HostM (Except (SortFailure (Observed σ) ε) (SortedStream (Observed σ) α))} {host : Host}
    (sorted : Ensures sorting host fun result _ =>
      match result with
      | .error failure => LetsGo bufferSize failure
      | .ok stream => Tended stream) : ClosesOnce bufferSize sorting host := by
  apply sorted.mono
  intro result later outcome
  cases result with
  | error failure => exact outcome
  | ok stream =>
    intro events
    exact (SortedStream.play_tended outcome events later).mono fun _ last tended =>
      SortedStream.discard_tended tended last

/-- A failed close of the source is passed over. -/
theorem Sorter.releaseSource_closes [RecordSource σ α ε] [ErrorText ε] {source : Observed σ}
    (stillOpen : StillOpen source.events) (host : Host) :
    Ensures (releaseSource source) host fun released _ => ClosedOnce released.events := by
  simp only [releaseSource]
  rw [Ensures.bind_iff]
  apply (close_observed stillOpen host).mono
  rintro ⟨closed, source'⟩ later once
  cases closed with
  | error error => exact once
  | ok => exact once

/-- A sort that ends without a stream closes its source, unless it was given up. -/
theorem Sorter.abort_closes [RecordSource σ α ε] [ErrorText ε] (error : SortError ε) {filling : Filling (Observed σ) α}
    (stillOpen : StillOpen filling.source.events) (host : Host) :
    Ensures (abort error filling) host fun failure _ =>
      (failure.error.lacksBuffer = false → ClosedOnce failure.source.events) ∧
        (failure.error.lacksBuffer = true → StillOpen failure.source.events) := by
  refine abort_rule (Ensures.intro fun store middle _ => ⟨fun givenUp => ?_, fun failed => ?_⟩)
  · exact ⟨fun failed => absurd (failed.symm.trans givenUp) Bool.false_ne_true, fun _ => stillOpen⟩
  · apply (releaseSource_closes stillOpen middle).mono
    intro source later once
    exact ⟨fun _ => once, fun givenUp => absurd (failed.symm.trans givenUp) Bool.false_ne_true⟩

/-- Apart from sorts that are given up, a sort leaves its source open only with a stream that is. -/
theorem Sorter.sortBy_tended [RecordSource σ α ε] [ErrorText ε] (sorter : Sorter) (format : SpillFormat α)
    (compare : Comparison α) {source : Observed σ} (unread : Unread source.events) (host : Host) :
    Ensures (sorter.sortBy format compare source) host fun result _ =>
      match result with
      | .error failure => LetsGo sorter.options.bufferSize failure
      | .ok stream => Tended stream := by
  have ended : Ensures (sorter.sortBy format compare source) host fun result _ =>
      match result with
      | .error failure => (failure.error.lacksBuffer = false → ClosedOnce failure.source.events) ∧
          (failure.error.lacksBuffer = true → StillOpen failure.source.events)
      | .ok stream => Tended stream := by
    simp only [sortBy]
    rw [Ensures.bind_iff]
    apply (Filling.run_stillOpen _ _ unread host).mono
    rintro ⟨answer, filling⟩ later stillOpen
    cases answer with
    | error error =>
      dsimp only
      rw [Ensures.bind_iff]
      exact abort_closes error stillOpen later
    | ok outcome =>
      have opened : (openStream compare filling outcome).phase ≠ .closed := by cases outcome <;> rintro ⟨⟩
      have same : (openStream compare filling outcome).source = filling.source := by cases outcome <;> rfl
      have tended : Tended (openStream compare filling outcome) :=
        ⟨fun closed => absurd closed opened, fun _ => same ▸ stillOpen⟩
      refine position_rule fun start _ => ?_
      apply ((SortedStream.skip_onward _ _ start).and (SortedStream.skip_buffered _ _ start)).mono
      rintro ⟨answer, stream⟩ skipped ⟨onward, there⟩
      have tended' := tended.onward onward
      cases answer with
      | error error =>
        apply (SortedStream.discard_tended tended' skipped).mono
        intro dropped _ once
        exact ⟨fun _ => once, fun givenUp => absurd ((there error rfl).symm.trans givenUp) Bool.false_ne_true⟩
      | ok => exact ⟨tended'.closed, tended'.opened⟩
  apply (ended.and (sorter.lt_of_lacksBuffer format compare source host)).mono
  rintro result later ⟨outcome, lacking⟩
  cases result with
  | error failure => exact ⟨outcome.1, outcome.2, lacking failure rfl⟩
  | ok stream => exact outcome

/-- Making a sorter asks for no buffer, and keeps its options. -/
theorem Sorter.build_spec (options : SorterOptions) (host : Host) :
    Ensures (build (ε := ε) options) host fun result _ =>
      match result with
      | .error error => error.lacksBuffer = false
      | .ok sorter => sorter.options = options := by
  simp only [build]
  split
  · split
    · exact rfl
    · rw [Ensures.bind_iff]
      refine Ensures.report fun start _ => ?_
      rw [Ensures.bind_iff, Ensures.startPool_iff]
      split <;> exact rfl
  · exact rfl

namespace SortedReader

variable [FeatureReader ρ ε] [ErrorText ε] {reader : Observed ρ}

theorem closeQuietly_closes (stillOpen : StillOpen reader.events) (host : Host) :
    Ensures (closeQuietly reader) host fun closed _ => ClosedOnce closed.events := by
  simp only [closeQuietly]
  rw [Ensures.bind_iff]
  apply (close_observed stillOpen host).mono
  rintro ⟨closed, reader'⟩ later once
  cases closed with
  | error error => exact once
  | ok => exact once

/-- Keys that do not fit close the reader unread, and otherwise it is handed on to the sorter. -/
theorem withSorter_tended (sorter : Sorter) (format : SpillFormat Feature) (unread : Unread reader.events)
    (keys : List SortKey) (registry : OrderingRegistry) (host : Host) :
    Ensures (withSorter sorter format reader keys registry) host fun result _ =>
      match result with
      | .error failure => LetsGo sorter.options.bufferSize failure
      | .ok sorted => Tended sorted.stream := by
  simp only [withSorter]
  split
  · rw [Ensures.bind_iff]
    apply Ensures.report
    intro start _
    rw [Ensures.bind_iff]
    exact (closeQuietly_closes unread.stillOpen start).mono fun _ _ once => .of_closedOnce rfl once
  · next comparator _ =>
    rw [Ensures.bind_iff]
    apply (sorter.sortBy_tended format comparator.compare unread host).mono
    intro result later outcome
    cases result with
    | error failure => exact outcome
    | ok stream => exact outcome

theorem new_tended (format : SpillFormat Feature) (unread : Unread reader.events) (keys : List SortKey)
    (pageSize : Nat) (host : Host) :
    Ensures (new format reader keys pageSize) host fun result _ =>
      match result with
      | .error failure => LetsGo none failure
      | .ok sorted => Tended sorted.stream := by
  simp only [new]
  rw [Ensures.bind_iff]
  apply (Sorter.build_spec _ host).mono
  intro built start outcome
  cases built with
  | error error =>
    dsimp only
    rw [Ensures.bind_iff]
    exact (closeQuietly_closes unread.stillOpen start).mono fun _ _ once => .of_closedOnce outcome once
  | ok sorter =>
    have standard : sorter.options.bufferSize = none := congrArg SorterOptions.bufferSize outcome
    exact standard ▸ withSorter_tended sorter format unread keys .scalars start

end SortedReader

end SpillSort
