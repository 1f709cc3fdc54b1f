import SpillSort.Proofs.Filling
import SpillSort.Proofs.LogFree

/-! # Memory for the write buffer

The one thing that sorting asks memory for is the buffer that runs are written through. Where a buffer of that size
can be had, or where it is so large that it is refused out of hand, no lack of memory is noted; and where it can be
had, nothing is given up for want of it.
-/

namespace SpillSort

variable {σ α β ε : Type}

/-! ## Steps that note no lack of memory -/

/-- A step that notes no lack of memory. -/
def Spares (step : HostM α) : Prop :=
  ∀ host, Ensures step host fun _ later => later.exhausted? = host.exhausted?

namespace Spares

theorem bind {first : HostM β} {rest : β → HostM α} (spares : Spares first) (onward : ∀ answer, Spares (rest answer)) :
    Spares (first >>= rest) := by
  intro host
  rw [Ensures.bind_iff]
  apply (spares host).mono
  intro answer middle same
  apply (onward answer middle).mono
  intro _ later same'
  exact same'.trans same

theorem pure (answer : α) : Spares (Pure.pure answer) := fun _ => rfl

theorem report (level : LogLevel) (text : String) : Spares (Host.report level text) := fun _ => rfl

/-- A size that is refused out of hand is not noted. -/
theorem lackMemory {size : Nat} (huge : Host.addressLimit < size) : Spares (Host.lackMemory size) := by
  intro host
  change (if size ≤ Host.addressLimit ∧ host.exhausted?.isNone then _ else host : Host).exhausted? = host.exhausted?
  rw [if_neg fun small => Nat.not_le.mpr huge small.1]

theorem reportIf {condition : Prop} [Decidable condition] {level : LogLevel} {text : String} {rest : Unit → HostM α}
    (onward : Spares (rest ())) : Spares (if condition then Host.report level text >>= rest else rest ()) := by
  split
  · exact .bind (report level text) fun _ => onward
  · exact onward

end Spares

theorem Plain.spares {step : HostM α} (plain : Plain step) : Spares step := by
  induction plain with
  | pure answer => exact .pure answer
  | bind _ _ spares onward => exact .bind spares onward
  | report level text => exact .report level text
  | onDisk step => exact fun _ => rfl
  | readDisk _ onward => exact fun host => onward host.disk host

/-- A source that notes no lack of memory. -/
structure SparingSource (σ : Type) {α ε : Type} [RecordSource σ α ε] : Prop where
  next : ∀ source : σ, Spares (RecordSource.next (ε := ε) source)
  close : ∀ source : σ, Spares (RecordSource.close (ε := ε) source)

/-! ## Writing -/

/-- The size of the buffer that runs are written through. -/
def bufferCapacity (bufferSize : Option Nat) : Nat := bufferSize.getD BufferedFile.standardCapacity

/-- A buffer of the size can be had, or the size is refused out of hand. -/
def Affordable (bufferSize : Option Nat) : Prop :=
  bufferCapacity bufferSize ≤ BufferedFile.capacityLimit ∨ Host.addressLimit < bufferCapacity bufferSize

theorem Frame.encodeAll_eq_error {format : SpillFormat α} {records : List α} {error : SpillError}
    (failed : encodeAll format records = .error error) : ∃ reason, error = .encode reason := by
  induction records with
  | nil => cases failed
  | cons record records ih =>
    unfold encodeAll at failed
    split at failed
    · next refused =>
      cases failed
      unfold encode at refused
      split at refused
      · cases refused
        exact ⟨_, rfl⟩
      · split at refused
        · cases refused
        · cases refused
          exact ⟨_, rfl⟩
    · cases tail : encodeAll format records with
      | error error' =>
        rw [tail] at failed
        cases failed
        exact ih tail
      | ok frames =>
        rw [tail] at failed
        cases failed

namespace SpillStore

/-- Frames are lacking a buffer only if none of the size can be had. -/
theorem lt_of_dump_eq {store : SpillStore} {format : SpillFormat α} {records : List α} {size : Nat}
    (failed : store.dump format records = .error (.bufferTooLarge size)) :
    size = bufferCapacity store.bufferSize ∧ BufferedFile.capacityLimit < size := by
  unfold dump at failed
  dsimp only at failed
  split at failed
  · obtain ⟨reason, encoding⟩ := Frame.encodeAll_eq_error failed
    cases encoding
  · next large =>
    cases failed
    exact ⟨rfl, Nat.not_le.mp large⟩

theorem ensureDirectory_plain (store : SpillStore) : Plain store.ensureDirectory := by
  simp only [ensureDirectory]
  split
  · exact .pure _
  · refine .bind (.onDisk _) fun made => ?_
    cases made with
    | error error => exact .pure _
    | ok directory => exact .bind (.report _ _) fun _ => .pure _

theorem removeLive_plain (store : SpillStore) (path : SpillPath) : Plain (store.removeLive path) := by
  simp only [removeLive]
  refine .bind (removeSpillFile_plain path) fun removed => ?_
  cases removed with
  | error error => exact .pure _
  | ok => exact .pure _

theorem write_bufferSize (store : SpillStore) (format : SpillFormat α) (records : List α) (host : Host) :
    Ensures (store.write format records) host fun result _ => result.2.bufferSize = store.bufferSize := by
  refine write_rule (fun _ store' _ => store'.bufferSize = store.bufferSize) ?_ ?_ ?_ ?_ ?_
  · apply (store.bufferSize_ensureDirectory host).mono
    rintro ⟨made, store'⟩ middle same
    cases made with
    | error error => exact same
    | ok directory => exact same
  · exact fun _ _ _ _ _ same _ => same
  · exact fun _ _ _ _ _ _ _ same _ _ _ => same
  · exact fun _ _ _ _ _ _ _ same _ _ _ _ => same
  · exact fun _ _ _ _ _ _ _ same _ _ _ => same

theorem write_spares {store : SpillStore} (affordable : Affordable store.bufferSize) (format : SpillFormat α)
    (records : List α) : Spares (store.write format records) := by
  intro host
  simp only [write]
  rw [Ensures.bind_iff]
  apply ((store.ensureDirectory_plain.spares host).and (store.bufferSize_ensureDirectory host)).mono
  rintro ⟨made, store'⟩ middle ⟨same, bufferSize_eq⟩
  rw [← bufferSize_eq] at affordable
  cases made with
  | error error => exact same
  | ok directory =>
    dsimp only
    rw [← same]
    refine Spares.bind (Plain.onDisk _).spares (fun created => ?_) middle
    cases created with
    | error error => exact .pure _
    | ok node =>
      dsimp only
      split
      · exact .bind (Plain.onDisk _).spares fun _ => .bind (.report _ _) fun _ => .pure _
      · next size failed =>
        obtain ⟨rfl, large⟩ := lt_of_dump_eq failed
        have huge := affordable.resolve_left (Nat.not_le.mpr large)
        exact .bind (.lackMemory huge) fun _ => .pure _
      · refine .bind (removeLive_plain _ _).spares ?_
        rintro ⟨removed, store''⟩
        cases removed with
        | error fault => exact .bind (.report _ _) fun _ => .pure _
        | ok => exact .pure _

/-- Where a buffer can be had, no write is given up for want of one. -/
theorem write_buffered {store : SpillStore} (buffered : bufferCapacity store.bufferSize ≤ BufferedFile.capacityLimit)
    (format : SpillFormat α) (records : List α) (host : Host) :
    Ensures (store.write format records) host fun result _ => ∀ size, result.1 ≠ .error (.bufferTooLarge size) := by
  refine write_rule (fun _ store' _ => store'.bufferSize = store.bufferSize) ?_ ?_ ?_ ?_ ?_
  · apply (store.bufferSize_ensureDirectory host).mono
    rintro ⟨made, store'⟩ middle same
    cases made with
    | error error => exact nofun
    | ok directory => exact same
  · exact fun _ _ _ _ _ _ _ => nofun
  · exact fun _ _ _ _ _ _ _ _ _ _ _ => nofun
  · rintro path store' disk node made error later - - there - - size ⟨⟩
    exact there size rfl
  · rintro path store' disk node made size later same - failed - _ ⟨⟩
    obtain ⟨rfl, large⟩ := lt_of_dump_eq failed
    rw [same] at large
    exact Nat.not_le.mpr large buffered

end SpillStore

/-! ## Sorting -/

namespace Filling

theorem accept_bufferSize (plan : RunPlan α) (filling : Filling σ α) (record : α) (host : Host) :
    Ensures (accept (ε := ε) plan filling record) host fun result _ =>
      result.2.store.bufferSize = filling.store.bufferSize := by
  refine accept_rule (fun _ => rfl) fun _ start _ => ?_
  apply (filling.store.write_bufferSize plan.format _ start).mono
  rintro ⟨written, store⟩ later same
  cases written with
  | error error => exact same
  | ok handle => exact same

theorem accept_spares {filling : Filling σ α} (affordable : Affordable filling.store.bufferSize) (plan : RunPlan α)
    (record : α) : Spares (accept (ε := ε) plan filling record) := by
  simp only [accept]
  split
  · refine .bind (.bind (.report _ _) fun _ => .bind (.report _ _) fun _ => ?_) ?_
    · exact .bind (SpillStore.write_spares affordable _ _) fun _ => .pure _
    · rintro ⟨spilled, store⟩
      cases spilled with
      | error error => exact .pure _
      | ok handle => exact .pure _
  · exact .pure _

theorem accept_buffered {filling : Filling σ α}
    (buffered : bufferCapacity filling.store.bufferSize ≤ BufferedFile.capacityLimit) (plan : RunPlan α) (record : α)
    (host : Host) :
    Ensures (accept (ε := ε) plan filling record) host fun result _ => ∀ error, result.1 = .error error →
      error.lacksBuffer = false := by
  refine accept_rule (fun _ => nofun) fun _ start _ => ?_
  apply (SpillStore.write_buffered buffered plan.format _ start).mono
  rintro ⟨written, store⟩ later there
  cases written with
  | ok handle => exact nofun
  | error error =>
    rintro _ ⟨⟩
    cases error with
    | bufferTooLarge size => exact absurd rfl (there size)
    | temporaryDirectory _ | io _ | encode _ | decode _ => rfl

section

variable [RecordSource σ α ε] {filling : Filling σ α}

theorem readAll_spares (sparing : SparingSource (ε := ε) (α := α) σ) (affordable : Affordable filling.store.bufferSize)
    (plan : RunPlan α) : Spares (modifyGet (readAll (ε := ε) plan filling)) := by
  intro host
  refine readAll_rule (fun filling later => Affordable filling.store.bufferSize ∧ later.exhausted? = host.exhausted?) ?_
    ⟨affordable, rfl⟩
  rintro filling start ⟨affordable, same⟩
  apply (sparing.next filling.source start).mono
  rintro ⟨answer, source⟩ later same'
  match answer with
  | .error error => exact same'.trans same
  | .ok none => exact same'.trans same
  | .ok (some record) =>
    have taken := @accept_spares _ _ ε { filling with source } affordable plan record
    apply ((taken later).and (accept_bufferSize plan _ record later)).mono
    rintro ⟨accepted, fuller⟩ last ⟨same'', bufferSize_eq⟩
    cases accepted with
    | error error => exact same''.trans (same'.trans same)
    | ok =>
      refine ⟨?_, same''.trans (same'.trans same)⟩
      rw [show fuller.store.bufferSize = filling.store.bufferSize from bufferSize_eq]
      exact affordable

theorem readAll_buffered (buffered : bufferCapacity filling.store.bufferSize ≤ BufferedFile.capacityLimit)
    (plan : RunPlan α) (host : Host) :
    Ensures (modifyGet (readAll (ε := ε) plan filling)) host fun result _ => ∀ error, result.1 = .error error →
      error.lacksBuffer = false := by
  refine readAll_rule (fun filling _ => bufferCapacity filling.store.bufferSize ≤ BufferedFile.capacityLimit) ?_ buffered
  intro filling start buffered
  apply Ensures.intro
  rintro ⟨answer, source⟩ later -
  match answer with
  | .error error =>
    rintro _ ⟨⟩
    rfl
  | .ok none => exact nofun
  | .ok (some record) =>
    have taken := @accept_buffered _ _ ε { filling with source } buffered plan record
    apply ((taken later).and (accept_bufferSize plan _ record later)).mono
    rintro ⟨accepted, fuller⟩ last ⟨there, bufferSize_eq⟩
    cases accepted with
    | error error => exact there
    | ok =>
      change bufferCapacity fuller.store.bufferSize ≤ _
      rw [show fuller.store.bufferSize = filling.store.bufferSize from bufferSize_eq]
      exact buffered

end

theorem conclude_spares (plan : RunPlan α) (filling : Filling σ α) : Spares (filling.conclude (ε := ε) plan) := by
  have opening : Spares (openRuns plan.format filling.store filling.runs) := fun host =>
    (openRuns_disk plan.format filling.store filling.runs host).mono fun _ _ same => congrArg Host.exhausted? same
  simp only [conclude]
  split
  · exact .bind (.report _ _) fun _ => .pure _
  · refine .bind (.report _ _) fun _ => .bind opening fun opened => ?_
    cases opened with
    | error error => exact .pure _
    | ok readers => exact .pure _

/-- Runs that cannot be opened are no lack of a buffer. -/
theorem conclude_buffered (plan : RunPlan α) (filling : Filling σ α) (host : Host) :
    Ensures (filling.conclude (ε := ε) plan) host fun result _ => ∀ error, result = .error error →
      error.lacksBuffer = false := by
  simp only [conclude]
  split
  · rw [Ensures.bind_iff]
    refine Ensures.report fun start _ => ?_
    rintro _ ⟨⟩
  · rw [Ensures.bind_iff]
    refine Ensures.report fun start _ => ?_
    rw [Ensures.bind_iff]
    apply Ensures.intro
    rintro opened later -
    cases opened with
    | error error =>
      rintro _ ⟨⟩
      rfl
    | ok readers => rintro _ ⟨⟩

section

variable [RecordSource σ α ε] {left : σ → Nat} (bounded : Bounds (ε := ε) (α := α) left) {bufferSize : Option Nat}
include bounded

/-- A write buffer is asked for only where a page may be filled. -/
theorem run_spares (sparing : SparingSource (ε := ε) (α := α) σ) (plan : RunPlan α) {source : σ}
    (affordable : plan.pageSize ≤ left source → Affordable bufferSize) (place : Place) :
    Spares (run (ε := ε) plan source (.new place bufferSize)) := by
  have reading : Spares (modifyGet (readAll (ε := ε) plan (.start plan source (.new place bufferSize)))) := by
    rcases Nat.lt_or_ge (left source) plan.pageSize with few | full
    · intro host
      exact (readAll_few bounded (fun later => later.exhausted? = host.exhausted?)
        (fun source start same => (sparing.next source start).mono fun _ _ same' => same'.trans same) few rfl).mono
        fun _ _ read => read.2.2
    · exact readAll_spares sparing (affordable full) plan
  simp only [run]
  refine .bind reading ?_
  rintro ⟨answer, filling⟩
  cases answer with
  | error error => exact .pure _
  | ok => exact .bind (filling.conclude_spares plan) fun _ => .pure _

theorem run_buffered (plan : RunPlan α) {source : σ}
    (buffered : plan.pageSize ≤ left source → bufferCapacity bufferSize ≤ BufferedFile.capacityLimit) (place : Place)
    (host : Host) :
    Ensures (run (ε := ε) plan source (.new place bufferSize)) host fun result _ => ∀ error, result.1 = .error error →
      error.lacksBuffer = false := by
  have reading : Ensures (modifyGet (readAll (ε := ε) plan (.start plan source (.new place bufferSize)))) host
      fun result _ => ∀ error, result.1 = .error error → error.lacksBuffer = false := by
    rcases Nat.lt_or_ge (left source) plan.pageSize with few | full
    · have read := @readAll_few _ _ ε plan _ left bounded (fun _ => True) (fun _ _ _ => Ensures.intro fun _ _ _ => trivial)
        source few (.new place bufferSize) host trivial
      apply read.mono
      rintro result later ⟨faults, -⟩ error failed
      obtain ⟨fault, rfl⟩ := faults error failed
      rfl
    · exact readAll_buffered (buffered full) plan host
  simp only [run]
  rw [Ensures.bind_iff]
  apply reading.mono
  rintro ⟨answer, filling⟩ later there
  cases answer with
  | error error =>
    rintro _ ⟨⟩
    exact there error rfl
  | ok =>
    dsimp only
    rw [Ensures.bind_iff]
    exact filling.conclude_buffered plan later

end

end Filling

namespace SortedStream

theorem skip_plain (count : Nat) (stream : SortedStream σ α) : Plain (stream.skip (ε := ε) count) := by
  induction count generalizing stream with
  | zero => exact .pure _
  | succ count ih =>
    simp only [skip]
    refine .bind stream.advance_plain ?_
    rintro ⟨answer, stream'⟩
    cases answer with
    | error error => exact .pure _
    | ok given =>
      cases given with
      | none => exact .pure _
      | some record => exact ih stream'

/-- No request is refused for want of a buffer. -/
theorem advance_buffered (stream : SortedStream σ α) (host : Host) :
    Ensures (stream.advance (ε := ε)) host fun result _ => ∀ error, result.1 = .error error → error.lacksBuffer = false := by
  simp only [advance]
  split
  · rintro _ ⟨⟩
    rfl
  · split
    · rintro _ ⟨⟩
    · rw [Ensures.bind_iff]
      apply Ensures.intro
      rintro ⟨answer, phase⟩ later -
      cases answer with
      | none => rintro _ ⟨⟩
      | some pulled =>
        cases pulled with
        | error error =>
          rintro _ ⟨⟩
          rfl
        | ok record =>
          simp only [settle]
          split <;> rintro _ ⟨⟩

theorem skip_buffered (count : Nat) (stream : SortedStream σ α) (host : Host) :
    Ensures (stream.skip (ε := ε) count) host fun result _ => ∀ error, result.1 = .error error →
      error.lacksBuffer = false := by
  refine skip_rule (fun _ _ => True) ?_ (fun _ _ _ => nofun) trivial
  intro stream start _
  apply (stream.advance_buffered start).mono
  rintro ⟨answer, stream'⟩ later there
  match answer with
  | .error error =>
    rintro _ ⟨⟩
    exact there error rfl
  | .ok none => exact nofun
  | .ok (some record) => trivial

section

variable [RecordSource σ α ε] (sparing : SparingSource (ε := ε) (α := α) σ)
include sparing

theorem close_spares (stream : SortedStream σ α) : Spares (stream.close (ε := ε)) := by
  simp only [close]
  split
  · exact .pure _
  · refine .bind stream.store.close_plain.spares ?_
    rintro ⟨disposed, store⟩
    refine .bind (sparing.close _) ?_
    rintro ⟨closed, source⟩
    cases closed with
    | error error => exact .pure _
    | ok =>
      cases disposed with
      | error error => exact .pure _
      | ok => exact .pure _

theorem discard_spares [ErrorText ε] (stream : SortedStream σ α) : Spares (stream.discard (ε := ε)) := by
  simp only [discard]
  split
  · exact .pure _
  · refine .bind (close_spares sparing stream) ?_
    rintro ⟨closed, stream'⟩
    cases closed with
    | error error => exact .bind (.report _ _) fun _ => .pure _
    | ok => exact .pure _

end

end SortedStream

namespace Sorter

variable [RecordSource σ α ε] [ErrorText ε]

theorem position_spares (sparing : SparingSource (ε := ε) (α := α) σ) (sorter : Sorter) (stream : SortedStream σ α) :
    Spares (sorter.position (ε := ε) stream) := by
  simp only [position]
  refine .reportIf (.bind (stream.skip_plain _).spares ?_)
  rintro ⟨answer, stream'⟩
  cases answer with
  | error error => exact .bind (stream'.discard_spares sparing) fun _ => .pure _
  | ok => exact .pure _

theorem abort_spares (sparing : SparingSource (ε := ε) (α := α) σ) (error : SortError ε) (filling : Filling σ α) :
    Spares (abort error filling) := by
  simp only [abort]
  refine .bind filling.store.discard_plain.spares fun _ => ?_
  split
  · exact .pure _
  · refine .bind ?_ fun _ => .pure _
    simp only [releaseSource]
    refine .bind (sparing.close _) ?_
    rintro ⟨closed, source⟩
    cases closed with
    | error error => exact .bind (.report _ _) fun _ => .pure _
    | ok => exact .pure _

/-- Sorting notes no lack of memory if no page is filled, or a write buffer of the size can be had or is refused out of
hand. -/
theorem sortBy_spares {left : σ → Nat} (bounded : Bounds (ε := ε) (α := α) left)
    (sparing : SparingSource (ε := ε) (α := α) σ) {sorter : Sorter} {source : σ}
    (affordable : sorter.options.pageSize ≤ left source → Affordable sorter.options.bufferSize) (format : SpillFormat α)
    (compare : Comparison α) : Spares (sorter.sortBy (ε := ε) format compare source) := by
  simp only [sortBy]
  refine .bind (Filling.run_spares bounded sparing ⟨compare, format, sorter.options.pageSize⟩ affordable _) ?_
  rintro ⟨answer, filling⟩
  cases answer with
  | ok outcome => exact position_spares sparing sorter _
  | error error => exact .bind (abort_spares sparing error filling) fun _ => .pure _

/-- No sort is given up for want of a write buffer if no page is filled, or one of the size can be had. -/
theorem sortBy_buffered {left : σ → Nat} (bounded : Bounds (ε := ε) (α := α) left) {sorter : Sorter} {source : σ}
    (buffered : sorter.options.pageSize ≤ left source →
      bufferCapacity sorter.options.bufferSize ≤ BufferedFile.capacityLimit)
    (format : SpillFormat α) (compare : Comparison α) (host : Host) :
    Ensures (sorter.sortBy (ε := ε) format compare source) host fun result _ => ∀ failure, result = .error failure →
      failure.error.lacksBuffer = false := by
  have filled := Filling.run_buffered bounded ⟨compare, format, sorter.options.pageSize⟩ buffered sorter.options.place host
  simp only [sortBy]
  rw [Ensures.bind_iff]
  apply filled.mono
  rintro ⟨answer, filling⟩ later there
  cases answer with
  | error error =>
    dsimp only
    rw [Ensures.bind_iff]
    apply (abort_error error filling later).mono
    rintro failure last rfl _ ⟨⟩
    exact there failure.error rfl
  | ok outcome =>
    refine position_rule fun start _ => ?_
    apply (SortedStream.skip_buffered _ _ start).mono
    rintro ⟨answer, stream⟩ last there
    cases answer with
    | ok => rintro failure ⟨⟩
    | error error =>
      apply Ensures.intro
      rintro _ _ - failure ⟨⟩
      exact there error rfl

/-- A sort is given up only where no write buffer of the size can be had. -/
theorem lt_of_lacksBuffer (sorter : Sorter) (format : SpillFormat α) (compare : Comparison α) (source : σ) (host : Host) :
    Ensures (sorter.sortBy (ε := ε) format compare source) host fun result _ => ∀ failure, result = .error failure →
      failure.error.lacksBuffer = true → BufferedFile.capacityLimit < bufferCapacity sorter.options.bufferSize := by
  have bounded : Bounds (ε := ε) (α := α) (RecordSource.bound : σ → Nat) := by
    intro source start
    apply Ensures.intro
    rintro ⟨answer, after⟩ later read record rfl
    exact RecordSource.bound_lt read
  rcases Nat.lt_or_ge BufferedFile.capacityLimit (bufferCapacity sorter.options.bufferSize) with lacking | there
  · exact Ensures.intro fun _ _ _ _ _ _ => lacking
  · apply (sortBy_buffered bounded (fun _ => there) format compare host).mono
    intro result later never failure failed lacking
    cases lacking.symm.trans (never failure failed)

end Sorter

end SpillSort
