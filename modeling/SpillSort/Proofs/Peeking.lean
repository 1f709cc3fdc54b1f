import SpillSort.Proofs.LogFree
import SpillSort.Proofs.StreamEnding

/-! # Looking ahead

Asking a stream whether it has more records reads the next one, and may thereby remove files or end the stream.
Nobody else can tell. Two runs of a stream are compared, one in which such questions are asked and one in which
they are not: between two calls the first is at most one record ahead, and the next call that takes a record or
closes the stream brings them level again.
-/

namespace SpillSort

variable {σ α ε : Type}

namespace StreamAnswer

/-- The stream has looked whether there are records left, and could tell. -/
def looked : StreamAnswer α ε → Bool
  | .more (.ok _) => true
  | _ => false

end StreamAnswer

/-- Calls with their answers, without those that only looked. -/
def takings (calls : List StreamCall) (answers : List (StreamAnswer α ε)) : List (StreamCall × StreamAnswer α ε) :=
  (calls.zip answers).filter fun asked => !asked.2.looked

theorem takings_cons_of_looked {answer : StreamAnswer α ε} (looked : answer.looked) (call : StreamCall)
    (calls : List StreamCall) (answers : List (StreamAnswer α ε)) :
    takings (call :: calls) (answer :: answers) = takings calls answers := by simp [takings, looked]

theorem takings_cons_of_not_looked {answer : StreamAnswer α ε} (taken : answer.looked = false) (call : StreamCall)
    (calls : List StreamCall) (answers : List (StreamAnswer α ε)) :
    takings (call :: calls) (answer :: answers) = (call, answer) :: takings calls answers := by simp [takings, taken]

/-- What a source answers when it is closed does not depend on the log. -/
def ClosesLogFree (σ : Type) [RecordSource σ α ε] : Prop :=
  ∀ (source : σ) (host host' : Host), host.disk = host'.disk →
    ((RecordSource.close source).run host).1.1 = ((RecordSource.close source).run host').1.1

theorem closesLogFree_script : ClosesLogFree (Script α ε) := fun _ _ _ _ => rfl

namespace SortedStream

variable {stream stream' : SortedStream σ α} {host host' : Host}

/-- There is more exactly if a request for a record made instead gives one. -/
theorem hasNext_iff_next (stream : SortedStream σ α) (host : Host) :
    ((stream.hasNext (ε := ε)).run host).1.1 = .ok true ↔
      ∃ record, ((stream.next (ε := ε)).run host).1.1 = .ok (some record) := by
  unfold hasNext next
  split
  · next record looked => exact ⟨fun _ => ⟨record, rfl⟩, fun _ => rfl⟩
  · rw [StateT.run_bind]
    generalize (stream.advance (ε := ε)).run host = result
    obtain ⟨⟨answer, stream'⟩, later⟩ := result
    match answer with
    | .error error => exact ⟨nofun, nofun⟩
    | .ok none => exact ⟨nofun, nofun⟩
    | .ok (some record) => exact ⟨fun _ => ⟨record, rfl⟩, fun _ => rfl⟩

/-! ## A stream that is ahead -/

/-- All that the stream has on the temporary store can be found and removed. -/
structure Fit (stream : SortedStream σ α) (disk : Disk) : Prop where
  housed : stream.Housed
  removable : stream.store.Removable disk

theorem Fit.houses {disk disk' : Disk} (fit : stream.Fit disk) (houses : Houses stream stream' disk disk') :
    stream'.Fit disk' := ⟨houses.housed, houses.removable fit.removable⟩

/-- A stream that has looked ahead is still open, has what the other has, less what was removed meanwhile, and
where it found nothing there is nothing. -/
theorem ahead_facts {disk : Disk} (opened : stream'.phase ≠ .closed) (fit : stream'.Fit host'.disk)
    (looked : Ensures (stream'.advance (ε := ε)) host' fun result later =>
      result = (.ok stream.peeked, { stream with peeked := none }) ∧ later.disk = disk) :
    (stream.phase ≠ .closed ∧ stream.source = stream'.source) ∧ Houses stream' stream host'.disk disk ∧
      (stream.peeked = none → stream.Spent) := by
  obtain ⟨ran, disk_eq⟩ := looked
  have onward : Onward stream' _ := stream'.advance_onward (ε := ε) host'
  have houses : Houses stream' _ host'.disk _ := advance_houses (ε := ε) fit.housed host'
  have spent : _ = Except.ok none → Spent _ := stream'.advance_spent (ε := ε) host'
  rw [disk_eq] at houses
  rw [ran] at onward houses spent
  refine ⟨⟨opened ∘ onward.closed_iff.mp, onward.source_eq⟩, ?_, fun nothing => ?_⟩
  · exact ⟨⟨houses.housed.runs, houses.housed.files⟩, houses.removable, houses.without_eq⟩
  · exact spent (congrArg Except.ok nothing)

/-- A stream that was asked to look ahead now and then, with what the temporary store has become, beside one that
was not. They are level, or the first has looked at the next record, or both are closed. -/
inductive Abreast (ε : Type) (stream : SortedStream σ α) (disk : Disk) : SortedStream σ α → Host → Prop
  | level {host' : Host} : host'.disk = disk → (stream.phase ≠ .closed → stream.Fit disk) →
    Abreast ε stream disk stream host'
  | ahead {stream' : SortedStream σ α} {host' : Host} : stream'.phase ≠ .closed → stream'.Fit host'.disk →
    stream'.peeked = none →
    Ensures (stream'.advance (ε := ε)) host' (fun result later =>
      result = (.ok stream.peeked, { stream with peeked := none }) ∧ later.disk = disk) →
    Abreast ε stream disk stream' host'
  | closed {stream' : SortedStream σ α} {host' : Host} : stream.phase = .closed → stream.peeked = none →
    stream'.phase = .closed → stream'.peeked = none → Abreast ε stream disk stream' host'

/-- A request for a record brings a stream that is ahead level with the other. -/
theorem next_ahead {disk : Disk} (opened : stream'.phase ≠ .closed) (fit : stream'.Fit host'.disk)
    (nothing : stream'.peeked = none)
    (looked : Ensures (stream'.advance (ε := ε)) host' fun result later =>
      result = (.ok stream.peeked, { stream with peeked := none }) ∧ later.disk = disk)
    (same : host.disk = disk) :
    Ensures (stream.next (ε := ε)) host fun result later =>
      Ensures (stream'.next (ε := ε)) host' fun result' later' =>
        result'.1 = result.1 ∧ Abreast ε result.2 later.disk result'.2 later' := by
  obtain ⟨⟨opened', -⟩, houses, spent⟩ := ahead_facts opened fit looked
  have taken : Ensures (stream.next (ε := ε)) host fun result later =>
      result = (.ok stream.peeked, { stream with peeked := none }) ∧ later = host := by
    simp only [next]
    split
    · next record found =>
      rw [found]
      exact ⟨rfl, rfl⟩
    · next found =>
      apply (stream.advance_of_spent (spent found) host).mono
      rintro result later ⟨rfl, rfl⟩
      have same : { stream with peeked := none } = stream := by rw [← found]
      rw [same, found]
      exact ⟨rfl, rfl⟩
  have fit' : { stream with peeked := none }.Fit disk :=
    ⟨⟨houses.housed.runs, houses.housed.files⟩, houses.removable fit.removable⟩
  apply taken.mono
  rintro result later ⟨rfl, rfl⟩
  simp only [next, nothing]
  apply looked.mono
  rintro result' later' ⟨rfl, disk_eq⟩
  subst same
  exact ⟨rfl, .level disk_eq fun _ => fit'⟩

/-! ## Two runs -/

variable [RecordSource σ α ε]

/-- With everything removed, closing answers as the source does. -/
theorem close_answer (opened : stream.phase ≠ .closed) (fit : stream.Fit host.disk) :
    Ensures (stream.close (ε := ε)) host fun result _ => ∃ start : Host,
      start.disk = host.disk.without stream.store.directory ∧
        result.1 = ((RecordSource.close stream.source).run start).1.1.mapError .input := by
  simp only [close]
  rw [Ensures.bind_iff]
  apply (SpillStore.close_spec fit.housed.files fit.removable).mono
  rintro result middle ⟨rfl, disk_eq⟩
  rw [Ensures.bind_iff]
  apply Ensures.intro
  rintro ⟨closed, source⟩ later ran
  refine ⟨middle, disk_eq, ?_⟩
  rw [ran]
  cases closed with
  | error error => rfl
  | ok => rfl

/-- Closing two streams that differ in what is removed already. -/
theorem close_abreast (free : ClosesLogFree σ) (opened : stream.phase ≠ .closed) (opened' : stream'.phase ≠ .closed)
    (fit : stream.Fit host.disk) (fit' : stream'.Fit host'.disk) (source_eq : stream.source = stream'.source)
    (without_eq : host.disk.without stream.store.directory = host'.disk.without stream'.store.directory) :
    Ensures (stream.perform (ε := ε) .close) host fun result later =>
      Ensures (stream'.perform (ε := ε) .close) host' fun result' later' =>
        result'.1 = result.1 ∧ Abreast ε result.2 later.disk result'.2 later' := by
  simp only [perform]
  rw [Ensures.bind_iff]
  apply ((close_answer opened fit).and (close_opened opened host)).mono
  rintro ⟨answer, closed⟩ later ⟨⟨start, start_eq, answer_eq⟩, ⟨phase_eq, nothing⟩, -⟩
  rw [Ensures.pure_iff, Ensures.bind_iff]
  apply ((close_answer opened' fit').and (close_opened opened' host')).mono
  rintro ⟨answer', closed'⟩ later' ⟨⟨start', start_eq', answer_eq'⟩, ⟨phase_eq', nothing'⟩, -⟩
  have same := free stream.source start start' (start_eq.trans (without_eq.trans start_eq'.symm))
  dsimp only at answer_eq answer_eq'
  rw [source_eq] at answer_eq same
  have alike : answer' = answer := by rw [answer_eq, answer_eq', same]
  exact ⟨congrArg StreamAnswer.closed alike, .closed phase_eq nothing phase_eq' nothing'⟩

theorem perform_houses {call : StreamCall} (housed : stream.Housed) (asks : call ≠ .close) (host : Host) :
    Ensures (stream.perform (ε := ε) call) host fun result later => Houses stream result.2 host.disk later.disk := by
  cases call with
  | hasNext => exact (hasNext_houses housed host).mono fun _ _ houses => houses
  | next => exact (next_houses housed host).mono fun _ _ houses => houses
  | iterate => exact (next_houses housed host).mono fun _ _ houses => houses
  | close => exact absurd rfl asks

/-- What one call does to two runs: one that only looks is made in the first alone, and any other is answered alike
in both. -/
def Matched (ε : Type) [RecordSource σ α ε] (call : StreamCall) (stream' : SortedStream σ α) (host' : Host)
    (result : StreamAnswer α ε × SortedStream σ α) (disk : Disk) : Prop :=
  (result.1.looked → Abreast ε result.2 disk stream' host') ∧
    (result.1.looked = false → Ensures (stream'.perform (ε := ε) call) host' fun result' later' =>
      result'.1 = result.1 ∧ Abreast ε result.2 disk result'.2 later')

/-- A call made on a level stream is answered alike in both runs. -/
theorem perform_level {call : StreamCall} (asks : call ≠ .close) (same : host.disk = host'.disk)
    (fit : stream.phase ≠ .closed → stream.Fit host.disk) :
    Ensures (stream.perform (ε := ε) call) host fun result later =>
      Ensures (stream.perform (ε := ε) call) host' fun result' later' =>
        result'.1 = result.1 ∧ Abreast ε result.2 later.disk result'.2 later' := by
  apply Ensures.intro
  intro result later ran
  have alike : Ensures (stream.perform (ε := ε) call) host' fun result' later' =>
      result' = result ∧ later'.disk = later.disk := by
    obtain ⟨result_eq, disk_eq⟩ := stream.perform_logFree (ε := ε) asks host host' same
    rw [ran] at result_eq disk_eq
    exact ⟨result_eq.symm, disk_eq.symm⟩
  have onward := (perform_onward (ε := ε) asks host).of_run ran
  apply alike.mono
  rintro result' later' ⟨rfl, disk_eq⟩
  refine ⟨rfl, .level disk_eq fun opened => ?_⟩
  have fit' := fit (opened ∘ onward.closed_iff.mpr)
  exact fit'.houses ((perform_houses fit'.housed asks host).of_run ran)

/-- A question whether there is more leaves the stream as it is, or it has looked at what comes next. -/
theorem perform_looked (stream : SortedStream σ α) (call : StreamCall) (host : Host) :
    Ensures (stream.perform (ε := ε) call) host fun result later => result.1.looked →
      (result.2 = stream ∧ later = host) ∨
        stream.peeked = none ∧ Ensures (stream.advance (ε := ε)) host fun advanced last =>
          advanced = (.ok result.2.peeked, { result.2 with peeked := none }) ∧ last.disk = later.disk := by
  cases call with
  | hasNext =>
    simp only [perform, hasNext]
    rw [Ensures.bind_iff]
    split
    · exact fun _ => .inl ⟨rfl, rfl⟩
    · next nothing =>
      rw [Ensures.bind_iff]
      apply Ensures.intro
      rintro ⟨answer, stream'⟩ later ran
      have untouched := (stream.advance_peeked host).of_run ran
      cases answer with
      | error error => rintro ⟨⟩
      | ok peeked =>
        refine fun _ => .inr ⟨nothing, ?_⟩
        have same : { stream' with peeked := none } = stream' := by rw [← untouched.trans nothing]
        unfold Ensures
        rw [ran]
        exact ⟨congrArg (Prod.mk _) same.symm, rfl⟩
  | next =>
    simp only [perform]
    rw [Ensures.bind_iff]
    exact Ensures.intro fun _ _ _ looked => by cases looked
  | iterate =>
    simp only [perform]
    rw [Ensures.bind_iff]
    apply Ensures.intro
    rintro ⟨answer, stream'⟩ later -
    rcases answer with error | _ | record <;> rintro ⟨⟩
  | close =>
    simp only [perform]
    rw [Ensures.bind_iff]
    exact Ensures.intro fun _ _ _ looked => by cases looked

theorem matched_of_level (free : ClosesLogFree σ) (call : StreamCall) (same : host.disk = host'.disk)
    (fit : stream.phase ≠ .closed → stream.Fit host.disk) :
    Ensures (stream.perform (ε := ε) call) host fun result later => Matched ε call stream host' result later.disk := by
  apply Ensures.intro
  intro result later ran
  constructor
  · intro looked
    rcases (stream.perform_looked call host).of_run ran looked with ⟨rfl, rfl⟩ | ⟨nothing, advanced⟩
    · exact .level same.symm fit
    · have opened : stream.phase ≠ .closed := by
        intro closed
        simp only [advance, closed] at advanced
        cases advanced.1
      have advanced' : Ensures (stream.advance (ε := ε)) host' fun advanced last =>
          advanced = (.ok result.2.peeked, { result.2 with peeked := none }) ∧ last.disk = later.disk :=
        stream.advance_logFree.ensures (fun advanced disk =>
          advanced = (.ok result.2.peeked, { result.2 with peeked := none }) ∧ disk = later.disk) same advanced
      exact .ahead opened (same ▸ fit opened) nothing advanced'
  · rintro -
    by_cases asks : call = .close
    · subst asks
      by_cases closed : stream.phase = .closed
      · simp only [perform, close, closed] at ran ⊢
        cases ran
        exact ⟨rfl, .level same.symm fit⟩
      · have fit' := fit closed
        have fit'' : stream.Fit host'.disk := same ▸ fit'
        exact (close_abreast free closed closed fit' fit'' rfl (by rw [same])).of_run ran
    · exact (perform_level asks same fit).of_run ran

theorem matched_of_alike {call : StreamCall} (asks : call ≠ .hasNext)
    (alike : Ensures (stream.perform (ε := ε) call) host fun result later =>
      Ensures (stream'.perform (ε := ε) call) host' fun result' later' =>
        result'.1 = result.1 ∧ Abreast ε result.2 later.disk result'.2 later') :
    Ensures (stream.perform (ε := ε) call) host fun result later => Matched ε call stream' host' result later.disk := by
  have noLook : Ensures (stream.perform (ε := ε) call) host fun result _ => result.1.looked = false := by
    simp only [perform]
    cases call with
    | hasNext => exact absurd rfl asks
    | next =>
      rw [Ensures.bind_iff]
      exact Ensures.intro fun _ _ _ => rfl
    | iterate =>
      rw [Ensures.bind_iff]
      apply Ensures.intro
      rintro ⟨answer, stream'⟩ later -
      rcases answer with error | _ | record <;> rfl
    | close =>
      rw [Ensures.bind_iff]
      exact Ensures.intro fun _ _ _ => rfl
  apply (alike.and noLook).mono
  rintro result later ⟨alike, taken⟩
  exact ⟨fun looked => absurd (taken.symm.trans looked) Bool.false_ne_true, fun _ => alike⟩

theorem matched_of_ahead (free : ClosesLogFree σ) (call : StreamCall) (opened : stream'.phase ≠ .closed)
    (fit : stream'.Fit host'.disk) (nothing : stream'.peeked = none)
    (looked : Ensures (stream'.advance (ε := ε)) host' fun result later =>
      result = (.ok stream.peeked, { stream with peeked := none }) ∧ later.disk = host.disk) :
    Ensures (stream.perform (ε := ε) call) host fun result later => Matched ε call stream' host' result later.disk := by
  obtain ⟨⟨opened', source_eq⟩, houses, spent⟩ := ahead_facts opened fit looked
  have taken (answered : Except (SortError ε) (Option α) → StreamAnswer α ε) :
      Ensures (stream.next >>= fun given => pure (answered given.1, given.2)) host fun result later =>
        Ensures (stream'.next >>= fun given => pure (answered given.1, given.2)) host' fun result' later' =>
          result'.1 = result.1 ∧ Abreast ε result.2 later.disk result'.2 later' := by
    rw [Ensures.bind_iff]
    apply (next_ahead opened fit nothing looked rfl).mono
    intro result later alike
    rw [Ensures.pure_iff, Ensures.bind_iff]
    exact alike.mono fun _ _ alike => ⟨congrArg answered alike.1, alike.2⟩
  cases call with
  | hasNext =>
    have unchanged : Ensures (stream.perform (ε := ε) .hasNext) host fun result later =>
        result.1.looked ∧ result.2 = stream ∧ later = host := by
      simp only [perform, hasNext]
      rw [Ensures.bind_iff]
      split
      · exact ⟨rfl, rfl, rfl⟩
      · next found =>
        rw [Ensures.bind_iff]
        apply (stream.advance_of_spent (spent found) host).mono
        rintro result later ⟨rfl, rfl⟩
        have same : { stream with peeked := none } = stream := by rw [← found]
        exact ⟨rfl, same, rfl⟩
    apply unchanged.mono
    rintro ⟨answer, stream''⟩ later ⟨isLook, rfl, rfl⟩
    exact ⟨fun _ => .ahead opened fit nothing looked, fun other => absurd (other.symm.trans isLook) Bool.false_ne_true⟩
  | next => exact matched_of_alike (by rintro ⟨⟩) (taken .next)
  | iterate => exact matched_of_alike (by rintro ⟨⟩) (taken .iterated)
  | close =>
    exact matched_of_alike (by rintro ⟨⟩) (close_abreast free opened' opened (fit.houses houses) fit source_eq
      (houses.without_eq fit.removable))

/-- One call on streams that are abreast leaves them so. -/
theorem perform_abreast (free : ClosesLogFree σ) (call : StreamCall)
    (abreast : Abreast ε stream host.disk stream' host') :
    Ensures (stream.perform (ε := ε) call) host fun result later => Matched ε call stream' host' result later.disk := by
  cases abreast with
  | level same fit => exact matched_of_level free call same.symm fit
  | ahead opened fit nothing looked => exact matched_of_ahead free call opened fit nothing looked
  | closed closed nothing closed' nothing' =>
    apply (perform_of_closed closed nothing call host).mono
    rintro result later ⟨rfl, rfl⟩
    refine ⟨fun looked => ?_, fun _ => ?_⟩
    · cases call <;> cases looked
    · apply (perform_of_closed closed' nothing' call host').mono
      rintro result' later' ⟨rfl, rfl⟩
      exact ⟨rfl, .closed closed nothing closed' nothing'⟩

/-- Without the calls that only looked, all others are answered as with them. -/
theorem play_takings (free : ClosesLogFree σ) (calls : List StreamCall)
    (abreast : Abreast ε stream host.disk stream' host') :
    Ensures (stream.play (ε := ε) (calls.map .call)) host fun used _ =>
      Ensures (stream'.play (ε := ε) (((takings calls used.1).map Prod.fst).map .call)) host' fun used' _ =>
        used'.1 = (takings calls used.1).map Prod.snd := by
  -- The second stream stays behind while the first only looks, and follows with the next other call.
  induction calls generalizing stream stream' host host' with
  | nil => exact rfl
  | cons call calls ih =>
    rw [List.map_cons, play_cons_iff]
    apply (perform_abreast free call abreast).mono
    rintro ⟨answer, after⟩ later ⟨ahead, alike⟩
    cases looked : answer.looked with
    | true =>
      apply (ih (ahead looked)).mono
      rintro ⟨answers, used⟩ last matched
      rw [takings_cons_of_looked looked]
      exact matched
    | false =>
      apply Ensures.intro
      rintro ⟨answers, used⟩ last ran
      rw [takings_cons_of_not_looked looked]
      simp only [List.map_cons]
      rw [play_cons_iff]
      apply (alike looked).mono
      rintro ⟨answer', after'⟩ later' ⟨rfl, abreast'⟩
      exact ((ih abreast').of_run ran).mono fun _ _ others => congrArg (List.cons _) others

/-! ## Any sequence of calls -/

/-- How a stream answers any calls, when no files are changed between them. -/
structure Lawful (ε : Type) [RecordSource σ α ε] (stream : SortedStream σ α) (host : Host) : Prop where
  /-- Nobody can tell from the other answers that it was asked whether there is more. -/
  unnoticed : ∀ calls : List StreamCall, Ensures (stream.play (ε := ε) (calls.map .call)) host fun used _ =>
    Ensures (stream.play (ε := ε) (((takings calls used.1).map Prod.fst).map .call)) host fun used' _ =>
      used'.1 = (takings calls used.1).map Prod.snd
  /-- There is more exactly if the next record could be had instead. -/
  foreseen : ∀ calls : List StreamCall, Ensures (stream.play (ε := ε) (calls.map .call)) host fun used later =>
    ((used.2.hasNext (ε := ε)).run later).1.1 = .ok true ↔
      ∃ record, ((used.2.next (ε := ε)).run later).1.1 = .ok (some record)
  /-- A run that cannot be read is told once, and after that the stream has ended. -/
  failsOnce : ∀ calls : List StreamCall, Ensures (stream.play (ε := ε) (calls.map .call)) host fun used _ =>
    ∀ failed after, failed :: after <:+ used.1 → failed.isReadFault →
      (∀ answer ∈ after, ¬ answer.isReadFault) ∧ ∀ answer ∈ after.takeWhile (! ·.isClosing), answer.saysEnd
  /-- A closed stream refuses everything. -/
  refused : ∀ calls : List StreamCall, Ensures (stream.play (ε := ε) (calls.map .call)) host fun used _ =>
    ∀ closed after, closed :: after <:+ used.1 → closed.isClosing →
      ∀ answer ∈ after, answer.error? = some .usedAfterClose

theorem lawful_of_fit (free : ClosesLogFree σ) (closing : stream.Sealed) (fit : stream.Fit host.disk) :
    stream.Lawful ε host where
  unnoticed calls := play_takings free calls (.level rfl fun _ => fit)
  foreseen _ := Ensures.intro fun used later _ => used.2.hasNext_iff_next later
  failsOnce calls := stream.play_failsOnce calls host
  refused calls := play_refused closing calls host

end SortedStream

/-- Looking ahead takes nothing from a stream and puts nothing in another order, it tells what comes, a failure is
told once, and closing is final. This is so for every stream of a sorter, whatever has been done with it and to its
files, from a moment on when its files are left alone and can be removed. -/
theorem Sorter.sortBy_lawful [RecordSource σ α ε] [ErrorText ε] (free : ClosesLogFree σ) (sorter : Sorter)
    (format : SpillFormat α) (compare : Comparison α) (source : σ) (host : Host) :
    Ensures (sorter.sortBy (ε := ε) format compare source) host fun result later => ∀ stream, result = .ok stream →
      ∀ events : List StreamEvent, Ensures (stream.play (ε := ε) events) later fun used middle =>
        used.2.store.Removable middle.disk → used.2.Lawful ε middle := by
  apply ((sorter.sortBy_fresh format compare source host).and (sorter.sortBy_housed format compare source host)).mono
  rintro result later ⟨fresh, housed⟩ stream rfl events
  have closing : stream.Sealed := fun closed => absurd closed (fresh stream rfl).1
  have kept : Ensures (stream.play (ε := ε) events) later fun used _ => used.2.Sealed :=
    SortedStream.play_rule (fun stream _ => stream.Sealed)
      (fun call _ start _ closing => (SortedStream.perform_sealed closing call start).mono fun _ _ outcome => outcome.1)
      (fun _ _ _ _ closing => closing) closing
  apply (kept.and (SortedStream.play_housed (housed stream rfl) events later)).mono
  rintro used middle ⟨closing', housed'⟩ removable
  exact SortedStream.lawful_of_fit free closing' ⟨housed', removable⟩

/-- Five numbers in pages of two. -/
theorem Sorter.sortBy_lawful_words :
    Ensures (sortBy ⟨{ SorterOptions.standard with pageSize := 2 }, by decide⟩ .words Ord.compare
      (Script.ofRecords [3, 1, 2, 1, 0] : Script Int64 Empty)) (Host.fresh .empty) fun result later =>
        ∃ stream, result = .ok stream ∧ stream.Lawful Empty later := by
  have yields : Yields [3, 1, 2, 1, 0] (Script.ofRecords [3, 1, 2, 1, 0] : Script Int64 Empty) (fun _ => False)
      Disk.empty := yields_ofRecords _ _
  apply Ensures.intro
  intro result later ran
  obtain ⟨stream, rfl, -⟩ := (sortBy_succeeds SpillFormat.words_roundTrips Disk.sound_empty yields
    (.inr (SpillStore.accepts_words _))).of_run ran
  have removable := (sortBy_removable Disk.sound_empty yields).of_run ran stream rfl
  exact ⟨stream, rfl, (sortBy_lawful closesLogFree_script _ _ _ _ _).of_run ran stream rfl [] removable⟩

end SpillSort
