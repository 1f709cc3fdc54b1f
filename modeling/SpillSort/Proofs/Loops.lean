import SpillSort.Proofs.Ensures
import SpillSort.Sorter.Basic
import SpillSort.Sorter.Calls

/-! # Rules for loops

What holds after a source has been read, an offset skipped or a stream used follows from what one turn
preserves. A turn that takes a record has a rule of its own, with a case for each way it goes.
-/

namespace SpillSort

variable {σ α ε : Type}

/-! ## Sources -/

namespace Filling

/-- Reading a source as steps: a record is taken, and then the rest is read. -/
theorem readAll_eq [RecordSource σ α ε] (plan : RunPlan α) (filling : Filling σ α) :
    modifyGet (readAll (ε := ε) plan filling) = (do
      let (answer, source) ← RecordSource.next filling.source
      match answer with
      | .error error => return (.error (.input error), { filling with source })
      | .ok none => return (.ok (), { filling with source })
      | .ok (some record) =>
        let (accepted, fuller) ← accept plan { filling with source } record
        match accepted with
        | .error error => return (.error error, fuller)
        | .ok () => modifyGet (readAll plan fuller) : HostM (Except (SortError ε) Unit × Filling σ α)) := by
  apply StateT.ext
  intro host
  change readAll plan filling host = _
  unfold readAll
  rw [StateT.run_bind]
  split
  · next ran =>
    rw [ran]
    rfl
  · next ran =>
    rw [ran]
    rfl
  · next ran =>
    rw [ran]
    change _ = StateT.run (accept _ _ _ >>= _) _
    rw [StateT.run_bind]
    split
    · next ran' =>
      rw [ran']
      rfl
    · next ran' =>
      rw [ran']
      rfl

/-- A record stays in the page, unless the page is full with it. Then the page is written. -/
theorem accept_rule {plan : RunPlan α} {filling : Filling σ α} {record : α} {host : Host}
    {post : Except (SortError ε) Unit × Filling σ α → Host → Prop}
    (stays : ¬ (filling.page.offer record).isFull →
      post (.ok (), { filling with page := filling.page.offer record }) host)
    (spills : (filling.page.offer record).isFull → ∀ start : Host, start.disk = host.disk →
      Ensures (filling.store.write plan.format (plan.compare.stableSort (filling.page.offer record).toList)) start
        fun result later =>
          match result.1 with
          | .error error =>
            post (.error (.ofWrite error), { filling with store := result.2, page := filling.page.offer record }) later
          | .ok handle =>
            post (.ok (), { filling with
              store := result.2, page := .empty plan.pageSize, runs := filling.runs ++ [handle] }) later) :
    Ensures (accept plan filling record) host post := by
  simp only [accept]
  split
  · next full =>
    rw [Ensures.bind_iff]
    simp only [spillPage]
    rw [Ensures.bind_iff]
    apply Ensures.report
    intro start same
    rw [Ensures.bind_iff]
    apply Ensures.report
    intro start' same'
    rw [Ensures.bind_iff]
    apply (spills full start' (same'.trans same)).mono
    rintro ⟨written, store⟩ later outcome
    cases written with
    | error error => exact outcome
    | ok handle => exact outcome
  · next notFull => exact stays notFull

/-- Taking a record leaves the source alone. -/
theorem accept_source (plan : RunPlan α) (filling : Filling σ α) (record : α) (host : Host) :
    Ensures (accept (ε := ε) plan filling record) host fun result _ => result.2.source = filling.source :=
  source_accept plan filling record host

/-- What every record preserves holds until the source has ended or something has failed. -/
theorem readAll_rule [RecordSource σ α ε] {plan : RunPlan α} (invariant : Filling σ α → Host → Prop)
    {post : Except (SortError ε) Unit × Filling σ α → Host → Prop}
    (turn : ∀ filling host, invariant filling host →
      Ensures (RecordSource.next filling.source) host fun result later =>
        match result.1 with
        | .error error => post (.error (.input error), { filling with source := result.2 }) later
        | .ok none => post (.ok (), { filling with source := result.2 }) later
        | .ok (some record) =>
          Ensures (accept plan { filling with source := result.2 } record) later fun accepted last =>
            match accepted.1 with
            | .error _ => post accepted last
            | .ok () => invariant accepted.2 last)
    {filling : Filling σ α} {host : Host} (holds : invariant filling host) :
    Ensures (modifyGet (readAll plan filling)) host post := by
  induction bound : RecordSource.bound filling.source using Nat.strongRecOn generalizing filling host with
  | ind bound ih =>
    subst bound
    rw [readAll_eq, Ensures.bind_iff]
    apply ((turn filling host holds).and (Ensures.intro fun _ _ ran => ran)).mono
    rintro ⟨answer, source⟩ later ⟨outcome, ran⟩
    match answer with
    | .error error => exact outcome
    | .ok none => exact outcome
    | .ok (some record) =>
      dsimp only at outcome ⊢
      rw [Ensures.bind_iff]
      apply (outcome.and (accept_source plan { filling with source } record later)).mono
      rintro ⟨accepted, fuller⟩ last ⟨outcome', same⟩
      match accepted with
      | .error error => exact outcome'
      | .ok () =>
        obtain rfl : fuller.source = source := same
        exact ih _ (RecordSource.bound_lt ran) outcome' rfl

end Filling

/-! ## Merges

A merge does to the temporary store what pulling its inputs does, and what pulling preserves of an input holds
of all inputs.
-/

namespace Merger

section

variable {γ : Type} (compare : Comparison α) {pull : γ → HostM (Option (Except ε α) × γ)} {fit : γ → Prop}
  (effect : Disk → Disk → Prop) (refl : ∀ disk, effect disk disk)
  (trans : ∀ {before middle after}, effect before middle → effect middle after → effect before after)
  (pulled : ∀ input host, fit input →
    Ensures (pull input) host fun result later => fit result.2 ∧ effect host.disk later.disk)

include refl pulled

theorem refill_rule {merger : Merger γ α ε} (fits : ∀ input ∈ merger.inputs, fit input) (index : Nat) (host : Host) :
    Ensures (merger.refill compare pull index) host fun result later =>
      (∀ input ∈ result.2.inputs, fit input) ∧ effect host.disk later.disk := by
  simp only [refill]
  split
  · exact ⟨fits, refl _⟩
  · next input found =>
    rw [Ensures.bind_iff]
    apply (pulled input host (fits input (List.mem_of_getElem? found))).mono
    rintro ⟨answer, input'⟩ later ⟨fit', changed⟩
    have fits' : ∀ other ∈ merger.inputs.set index input', fit other := by
      intro other present
      rcases List.mem_or_eq_of_mem_set present with old | rfl
      · exact fits other old
      · exact fit'
    match answer with
    | none => exact ⟨fits', changed⟩
    | some (.error error) => exact ⟨fits', changed⟩
    | some (.ok record) => exact ⟨fits', changed⟩

theorem takeHead_rule {merger : Merger γ α ε} (fits : ∀ input ∈ merger.inputs, fit input) (host : Host) :
    Ensures (merger.takeHead compare pull) host fun result later =>
      (∀ input ∈ result.2.inputs, fit input) ∧ effect host.disk later.disk := by
  simp only [takeHead]
  split
  · exact ⟨fits, refl _⟩
  · next head heads _ =>
    rw [Ensures.bind_iff]
    have fits' : ∀ input ∈ { merger with heads }.inputs, fit input := fits
    exact (refill_rule compare effect refl pulled fits' head.input host).mono fun _ _ kept => kept

include trans

theorem refillAll_rule (indices : List Nat) {merger : Merger γ α ε} (fits : ∀ input ∈ merger.inputs, fit input)
    (host : Host) :
    Ensures (merger.refillAll compare pull indices) host fun result later =>
      (∀ input ∈ result.2.inputs, fit input) ∧ effect host.disk later.disk := by
  induction indices generalizing merger host with
  | nil => exact ⟨fits, refl _⟩
  | cons index indices ih =>
    simp only [refillAll]
    rw [Ensures.bind_iff]
    apply (refill_rule compare effect refl pulled fits index host).mono
    rintro ⟨fault, merger'⟩ later ⟨fits', changed⟩
    cases fault with
    | some error => exact ⟨fits', changed⟩
    | none => exact (ih fits' later).mono fun _ _ kept => ⟨kept.1, trans changed kept.2⟩

theorem next_rule {merger : Merger γ α ε} (fits : ∀ input ∈ merger.inputs, fit input) (host : Host) :
    Ensures (merger.next compare pull) host fun result later =>
      (∀ input ∈ result.2.inputs, fit input) ∧ effect host.disk later.disk := by
  simp only [next]
  split
  · exact ⟨fits, refl _⟩
  · split
    · exact ⟨nofun, refl _⟩
    · rw [Ensures.bind_iff]
      simp only [seed]
      split
      · exact takeHead_rule compare effect refl pulled fits host
      · have fits' : ∀ input ∈ { merger with seeded := true }.inputs, fit input := fits
        apply (refillAll_rule compare effect refl trans pulled _ fits' host).mono
        rintro ⟨fault, merger'⟩ later ⟨fits', changed⟩
        cases fault with
        | some error => exact ⟨nofun, changed⟩
        | none =>
          exact (takeHead_rule compare effect refl pulled fits' later).mono fun _ _ kept =>
            ⟨kept.1, trans changed kept.2⟩

end

end Merger

/-! ## Streams -/

namespace SortedStream

/-- What every step past a record preserves holds until enough records were skipped. -/
theorem skip_rule (invariant : SortedStream σ α → Host → Prop)
    {post : Except (SortError ε) Unit × SortedStream σ α → Host → Prop}
    (turn : ∀ stream host, invariant stream host → Ensures (stream.advance (ε := ε)) host fun result later =>
      match result.1 with
      | .error error => post (.error error, result.2) later
      | .ok none => post (.ok (), result.2) later
      | .ok (some _) => invariant result.2 later)
    (enough : ∀ stream host, invariant stream host → post (.ok (), stream) host)
    {count : Nat} {stream : SortedStream σ α} {host : Host} (holds : invariant stream host) :
    Ensures (stream.skip count) host post := by
  induction count generalizing stream host with
  | zero => exact enough stream host holds
  | succ count ih =>
    simp only [skip]
    rw [Ensures.bind_iff]
    apply (turn stream host holds).mono
    rintro ⟨answer, stream'⟩ later outcome
    match answer with
    | .error error => exact outcome
    | .ok none => exact outcome
    | .ok (some record) => exact ih outcome

/-- What every call and every change from outside preserves holds in the end. -/
theorem play_rule [RecordSource σ α ε] (invariant : SortedStream σ α → Host → Prop) {events : List StreamEvent}
    (calls : ∀ call stream host, .call call ∈ events → invariant stream host →
      Ensures (stream.perform (ε := ε) call) host fun result later => invariant result.2 later)
    (changes : ∀ change stream (host : Host), .outside change ∈ events → invariant stream host →
      invariant stream { host with disk := change host.disk })
    {stream : SortedStream σ α} {host : Host} (holds : invariant stream host) :
    Ensures (stream.play (ε := ε) events) host fun result later => invariant result.2 later := by
  induction events generalizing stream host with
  | nil => exact holds
  | cons event events ih =>
    have onward := @ih (fun call stream host among => calls call stream host (List.mem_cons_of_mem _ among))
      (fun change stream host among => changes change stream host (List.mem_cons_of_mem _ among))
    cases event with
    | call call =>
      simp only [play]
      rw [Ensures.bind_iff]
      apply (calls call stream host List.mem_cons_self holds).mono
      rintro ⟨answer, stream'⟩ later holds'
      rw [Ensures.bind_iff]
      exact (onward holds').mono fun _ _ kept => kept
    | outside change =>
      simp only [play]
      rw [Ensures.bind_iff, Ensures.onDisk_iff]
      exact onward (changes change stream host List.mem_cons_self holds)

end SortedStream

/-- Whether the skipping is told to the log makes no difference to it. -/
theorem Sorter.position_rule [RecordSource σ α ε] [ErrorText ε] {sorter : Sorter} {stream : SortedStream σ α}
    {host : Host} {post : Except (SortFailure σ ε) (SortedStream σ α) → Host → Prop}
    (skipped : ∀ start : Host, start.disk = host.disk →
      Ensures (stream.skip (ε := ε) sorter.options.offset) start fun result later =>
        match result.1 with
        | .error error =>
          Ensures (result.2.discard (ε := ε)) later fun stream last => post (.error ⟨error, stream.source⟩) last
        | .ok () => post (.ok { result.2 with remaining := sorter.options.limit }) later) :
    Ensures (sorter.position stream) host post := by
  simp only [position]
  apply Ensures.reportIf
  intro start same
  rw [Ensures.bind_iff]
  apply (skipped start same).mono
  rintro ⟨answer, stream'⟩ later outcome
  cases answer with
  | error error => exact outcome
  | ok => exact outcome

/-- Ending a sort as steps: the store is discarded, and the source is closed unless the sort was given up. -/
theorem Sorter.abort_rule [RecordSource σ α ε] [ErrorText ε] {error : SortError ε} {filling : Filling σ α} {host : Host}
    {post : SortFailure σ ε → Host → Prop}
    (discarded : Ensures filling.store.discard host fun _ middle =>
      (error.lacksBuffer = true → post ⟨error, filling.source⟩ middle) ∧
      (error.lacksBuffer = false → Ensures (releaseSource (ε := ε) filling.source) middle fun source later =>
        post ⟨error, source⟩ later)) :
    Ensures (abort error filling) host post := by
  simp only [abort]
  rw [Ensures.bind_iff]
  apply discarded.mono
  rintro store middle ⟨givenUp, failed⟩
  split
  · next lacking => exact givenUp lacking
  · next there => exact Ensures.bind_iff.mpr (failed (Bool.eq_false_iff.mpr there))

/-- A sort that ends without a stream keeps its error. -/
theorem Sorter.abort_error [RecordSource σ α ε] [ErrorText ε] (error : SortError ε) (filling : Filling σ α) (host : Host) :
    Ensures (abort error filling) host fun failure _ => failure.error = error :=
  abort_rule (Ensures.intro fun _ _ _ => ⟨fun _ => rfl, fun _ => Ensures.intro fun _ _ _ => rfl⟩)

/-- Sorting as steps, for what is only said of the stream: the source is read, and the offset skipped. -/
theorem Sorter.sortBy_rule [RecordSource σ α ε] [ErrorText ε] {sorter : Sorter} {format : SpillFormat α}
    {compare : Comparison α} {source : σ} {host : Host}
    {post : SortedStream σ α → Host → Prop} (filled : Filling.Outcome α → Filling σ α → Host → Prop)
    (filling : Ensures (Filling.run (ε := ε) ⟨compare, format, sorter.options.pageSize⟩ source
      (.new sorter.options.place sorter.options.bufferSize)) host fun result later => ∀ outcome,
        result.1 = .ok outcome → filled outcome result.2 later)
    (skipping : ∀ outcome filling (start start' : Host), filled outcome filling start → start'.disk = start.disk →
      Ensures ((openStream compare filling outcome).skip (ε := ε) sorter.options.offset) start' fun result later =>
        result.1 = .ok () → post { result.2 with remaining := sorter.options.limit } later) :
    Ensures (sorter.sortBy (ε := ε) format compare source) host fun result later => ∀ stream, result = .ok stream →
      post stream later := by
  simp only [sortBy]
  rw [Ensures.bind_iff]
  apply filling.mono
  rintro ⟨answer, filling⟩ later ready
  cases answer with
  | error error =>
    rw [Ensures.bind_iff]
    apply Ensures.intro
    rintro _ _ - stream failed
    cases failed
  | ok outcome =>
    refine position_rule fun start same => ?_
    apply (skipping outcome filling later start (ready outcome rfl) same).mono
    rintro ⟨answer, stream⟩ last skipped
    cases answer with
    | error error =>
      apply Ensures.intro
      rintro _ _ - stream' failed
      cases failed
    | ok =>
      rintro stream' ⟨⟩
      exact skipped rfl

/-! ## Requests leave the source alone -/

theorem Phase.pull_closed_iff (compare : Comparison α) (phase : Phase α) (host : Host) :
    Ensures (phase.pull compare) host fun result _ => result.2 = .closed ↔ phase = .closed := by
  match phase with
  | .memory [] => exact Iff.rfl
  | .memory (_ :: _) => exact ⟨nofun, nofun⟩
  | .merging merger =>
    simp only [pull]
    rw [Ensures.bind_iff]
    exact Ensures.intro fun _ _ _ => ⟨nofun, nofun⟩
  | .exhausted => exact Iff.rfl
  | .closed => exact Iff.rfl

namespace SortedStream

/-- A stream after a request has the source it had, and is closed only if it was closed. -/
structure Onward (before after : SortedStream σ α) : Prop where
  source_eq : after.source = before.source
  closed_iff : after.phase = .closed ↔ before.phase = .closed

theorem Onward.refl (stream : SortedStream σ α) : Onward stream stream := ⟨rfl, Iff.rfl⟩

theorem Onward.trans {before middle after : SortedStream σ α} (first : Onward before middle)
    (second : Onward middle after) : Onward before after :=
  ⟨second.source_eq.trans first.source_eq, second.closed_iff.trans first.closed_iff⟩

theorem finish_onward {stream : SortedStream σ α} (opened : stream.phase ≠ .closed) (host : Host) :
    Ensures stream.finish host fun ended _ => Onward stream ended := by
  simp only [finish]
  split
  · exact .refl stream
  · exact ⟨rfl, nofun, fun closed => absurd closed opened⟩

theorem settle_onward {stream : SortedStream σ α} (opened : stream.phase ≠ .closed)
    (answer : Option (Except SpillError α)) (host : Host) :
    Ensures (stream.settle (ε := ε) answer) host fun result _ => Onward stream result.2 := by
  match answer with
  | none => exact finish_onward opened host
  | some (.error error) =>
    simp only [settle]
    rw [Ensures.bind_iff]
    exact Ensures.report fun start _ => finish_onward opened start
  | some (.ok record) =>
    simp only [settle]
    split
    · have ended := @finish_onward _ _ { stream with remaining := stream.remaining.map (· - 1) } opened host
      rw [Ensures.bind_iff]
      exact ended.mono fun _ _ onward => ⟨onward.source_eq, onward.closed_iff⟩
    · exact ⟨rfl, Iff.rfl⟩

theorem advance_onward (stream : SortedStream σ α) (host : Host) :
    Ensures (stream.advance (ε := ε)) host fun result _ => Onward stream result.2 := by
  simp only [advance]
  split
  · exact .refl stream
  · next opened =>
    split
    · exact .refl stream
    · rw [Ensures.bind_iff]
      apply (stream.phase.pull_closed_iff stream.compare host).mono
      rintro ⟨answer, phase⟩ later closed_iff
      have opened' : phase ≠ .closed := fun closed => opened (closed_iff.mp closed)
      have settled := @settle_onward _ _ ε { stream with phase } opened' answer later
      exact settled.mono fun _ _ onward => ⟨onward.source_eq, onward.closed_iff.trans closed_iff⟩

theorem hasNext_onward (stream : SortedStream σ α) (host : Host) :
    Ensures (stream.hasNext (ε := ε)) host fun result _ => Onward stream result.2 := by
  simp only [hasNext]
  split
  · exact .refl stream
  · rw [Ensures.bind_iff]
    apply (stream.advance_onward host).mono
    rintro ⟨answer, stream'⟩ later onward
    cases answer with
    | error error => exact onward
    | ok peeked => exact ⟨onward.source_eq, onward.closed_iff⟩

theorem next_onward (stream : SortedStream σ α) (host : Host) :
    Ensures (stream.next (ε := ε)) host fun result _ => Onward stream result.2 := by
  simp only [next]
  split
  · exact ⟨rfl, Iff.rfl⟩
  · exact stream.advance_onward host

theorem skip_onward (stream : SortedStream σ α) (count : Nat) (host : Host) :
    Ensures (stream.skip (ε := ε) count) host fun result _ => Onward stream result.2 := by
  refine skip_rule (fun stream' _ => Onward stream stream') ?_ (fun _ _ onward => onward) (.refl stream)
  intro stream' host' onward
  apply (stream'.advance_onward host').mono
  rintro ⟨answer, stream''⟩ later onward'
  match answer with
  | .error error => exact onward.trans onward'
  | .ok none => exact onward.trans onward'
  | .ok (some record) => exact onward.trans onward'

end SortedStream

end SpillSort
