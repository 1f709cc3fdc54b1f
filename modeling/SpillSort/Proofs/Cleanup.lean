import SpillSort.Proofs.Directories
import SpillSort.Proofs.SortedOutput

/-! # Nothing is left behind

While a stream has records to give its store has the directory of its runs, and the source has what it has. A
stream that has ended, by an error, by its end or by being closed, has a store without a directory. What is
left on the temporary store then was there before or is the source's own, whatever happened to single files and
whether or not the source could be closed.
-/

namespace SpillSort

variable {σ α ε : Type}

/-- What a source may do on the temporary store, given which directories it has: it makes none that it does not
have then, and lets go of none that is still there. It may do anything to files. -/
structure Contained [RecordSource σ α ε] (own : σ → Nat → Prop) : Prop where
  next : ∀ (source : σ) (host : Host), host.disk.Sound → Ensures (RecordSource.next source) host fun result later =>
    host.disk.Minds (own source) (own result.2) later.disk
  close : ∀ (source : σ) (host : Host), host.disk.Sound → Ensures (RecordSource.close source) host fun result later =>
    host.disk.Minds (own source) (own result.2) later.disk

/-- A script does nothing on the temporary store. -/
theorem contained_script : Contained (σ := Script α ε) fun _ _ => False where
  next _ _ sound := .refl sound
  close _ _ sound := .refl sound

/-- An error, or the answer to closing. -/
def StreamAnswer.IsLast (answer : StreamAnswer α ε) : Prop := answer.error? ≠ none ∨ answer.isClosing

theorem StreamAnswer.error_of_isLast_more {answer : Except (SortError ε) Bool}
    (last : (more answer : StreamAnswer α ε).IsLast) : ∃ error, answer = .error error := by
  cases answer with
  | error error => exact ⟨error, rfl⟩
  | ok more => exact last.elim (fun failed => absurd rfl failed) nofun

theorem StreamAnswer.error_of_isLast_next {answer : Except (SortError ε) (Option α)}
    (last : (next answer : StreamAnswer α ε).IsLast) : ∃ error, answer = .error error := by
  cases answer with
  | error error => exact ⟨error, rfl⟩
  | ok record => exact last.elim (fun failed => absurd rfl failed) nofun

theorem StreamAnswer.error_of_isLast_iterated {answer : Except (SortError ε) (Option α)}
    (last : (iterated answer).IsLast) : ∃ error, answer = .error error := by
  match answer with
  | .error error => exact ⟨error, rfl⟩
  | .ok none => exact last.elim (fun failed => absurd rfl failed) nofun
  | .ok (some record) => exact last.elim (fun failed => absurd rfl failed) nofun

/-- A call, or a change of a single file from outside. -/
def StreamEvent.Harmless : StreamEvent → Prop
  | .call _ => True
  | .outside change => ∃ damage path, change = fun disk => disk.damage damage path

/-! ## Reading runs -/

theorem RunReader.pull_minds (own : Nat → Prop) (run : RunReader α) {host : Host} (sound : host.disk.Sound) :
    Ensures run.pull host fun _ later => host.disk.Minds own own later.disk := by
  match run with
  | .memory [] => exact .refl sound
  | .memory (_ :: _) => exact .refl sound
  | .spilled reader =>
    simp only [pull]
    rw [Ensures.bind_iff]
    simp only [SpillReader.next]
    split
    · rw [Ensures.bind_iff]
      apply (reader.finish_spec host).mono
      rintro ended later ⟨-, effect⟩
      have minds : host.disk.Minds own own later.disk := by
        rcases effect with same | removed
        · rw [same]
          exact .refl sound
        · rw [removed]
          exact .remove sound reader.path
      exact minds
    · split
      · exact .refl sound
      · exact .refl sound

namespace Phase

/-- Nothing is given any more. -/
def Ended : Phase α → Prop
  | .exhausted | .closed => True
  | .memory _ | .merging _ => False

theorem ended_of_closed {phase : Phase α} (closed : phase = .closed) : phase.Ended := by
  rw [closed]
  trivial

theorem pull_minds (own : Nat → Prop) (compare : Comparison α) (phase : Phase α) {host : Host}
    (sound : host.disk.Sound) :
    Ensures (phase.pull compare) host fun result later =>
      host.disk.Minds own own later.disk ∧ (result.2.Ended ↔ phase.Ended) := by
  match phase with
  | .memory [] => exact ⟨.refl sound, Iff.rfl⟩
  | .memory (_ :: _) => exact ⟨.refl sound, Iff.rfl⟩
  | .merging merger =>
    simp only [pull]
    rw [Ensures.bind_iff]
    have pulled (run : RunReader α) (host : Host) : True → Ensures run.pull host fun _ later =>
        True ∧ (host.disk.Sound → host.disk.Minds own own later.disk) :=
      fun _ => Ensures.intro fun _ _ ran => ⟨trivial, fun sound => (RunReader.pull_minds own run sound).of_run ran⟩
    have fits : ∀ run ∈ merger.inputs, True := fun _ _ => trivial
    have merged := Merger.next_rule compare (fun before after => before.Sound → before.Minds own own after)
      (fun _ => .refl) (fun first second sound => (first sound).trans (second (first sound).sound)) pulled fits host
    exact merged.mono fun _ _ minds => ⟨minds.2 sound, Iff.rfl⟩
  | .exhausted => exact ⟨.refl sound, Iff.rfl⟩
  | .closed => exact ⟨.refl sound, Iff.rfl⟩

end Phase

/-! ## Streams -/

namespace SortedStream

/-- A stream that has ended has no directory any more. -/
def Tidy (stream : SortedStream σ α) : Prop := stream.phase.Ended → stream.store.directory = none

variable {stream : SortedStream σ α} {host : Host}

/-- What a request does to the directories, given which the stream had. A stream that answers with an error has
ended, and one that has ended stays so, as does one without a directory. -/
structure Minds (before after : SortedStream σ α) (failed : Prop) (disk disk' : Disk) : Prop where
  minds : disk.Minds (before.store.directory = some ·) (after.store.directory = some ·) disk'
  unspilled : before.store.directory = none → after.store.directory = none
  tidy : after.Tidy
  ended : before.phase.Ended → after.phase.Ended
  failed : failed → after.phase.Ended

theorem finish_minds (tidy : stream.Tidy) (sound : host.disk.Sound) :
    Ensures stream.finish host fun ended later =>
      (host.disk.Minds (stream.store.directory = some ·) (ended.store.directory = some ·) later.disk ∧ ended.Tidy) ∧
        ended.phase.Ended := by
  simp only [finish]
  split
  · next exhausted =>
    have ended : stream.phase.Ended := by
      rw [exhausted]
      trivial
    exact ⟨⟨.refl sound, tidy⟩, ended⟩
  · rw [Ensures.bind_iff]
    apply (stream.store.discard_minds sound).mono
    rintro store later ⟨minds, gone⟩
    exact ⟨⟨minds, fun _ => gone⟩, trivial⟩

theorem settle_minds (tidy : stream.Tidy) (answer : Option (Except SpillError α)) (sound : host.disk.Sound) :
    Ensures (stream.settle (ε := ε) answer) host fun result later =>
      Minds stream result.2 (∃ error, result.1 = .error error) host.disk later.disk := by
  match answer with
  | none =>
    simp only [settle]
    rw [Ensures.bind_iff]
    apply (finish_minds tidy sound).mono
    rintro ended later ⟨⟨minds, tidy'⟩, finished⟩
    exact ⟨minds, fun _ => tidy' finished, tidy', fun _ => finished, fun _ => finished⟩
  | some (.error error) =>
    simp only [settle]
    rw [Ensures.bind_iff]
    apply Ensures.report
    intro start same
    rw [← same] at sound ⊢
    rw [Ensures.bind_iff]
    apply (finish_minds tidy sound).mono
    rintro ended later ⟨⟨minds, tidy'⟩, finished⟩
    exact ⟨minds, fun _ => tidy' finished, tidy', fun _ => finished, fun _ => finished⟩
  | some (.ok record) =>
    simp only [settle]
    split
    · have tidy' : { stream with remaining := stream.remaining.map (· - 1) }.Tidy := tidy
      rw [Ensures.bind_iff]
      apply (finish_minds tidy' sound).mono
      rintro ended later ⟨⟨minds, tidied⟩, finished⟩
      exact ⟨minds, fun _ => tidied finished, tidied, fun _ => finished, fun _ => finished⟩
    · exact ⟨.refl sound, id, tidy, id, by simp⟩

theorem advance_minds (tidy : stream.Tidy) (sound : host.disk.Sound) :
    Ensures (stream.advance (ε := ε)) host fun result later =>
      Minds stream result.2 (∃ error, result.1 = .error error) host.disk later.disk := by
  simp only [advance]
  split
  · next closed => exact ⟨.refl sound, id, tidy, id, fun _ => Phase.ended_of_closed closed⟩
  · split
    · exact ⟨.refl sound, id, tidy, id, by simp⟩
    · rw [Ensures.bind_iff]
      apply (stream.phase.pull_minds (stream.store.directory = some ·) stream.compare sound).mono
      rintro ⟨answer, phase⟩ later ⟨minds, same⟩
      have tidy' : { stream with phase }.Tidy := fun ended => tidy (same.mp ended)
      apply (settle_minds tidy' answer minds.sound).mono
      rintro result last settled
      exact ⟨minds.trans settled.minds, settled.unspilled, settled.tidy, fun ended => settled.ended (same.mpr ended),
        settled.failed⟩

theorem hasNext_minds (tidy : stream.Tidy) (sound : host.disk.Sound) :
    Ensures (stream.hasNext (ε := ε)) host fun result later =>
      Minds stream result.2 (∃ error, result.1 = .error error) host.disk later.disk := by
  simp only [hasNext]
  split
  · exact ⟨.refl sound, id, tidy, id, by simp⟩
  · rw [Ensures.bind_iff]
    apply (advance_minds tidy sound).mono
    rintro ⟨answer, stream'⟩ later minds
    cases answer with
    | error error => exact { minds with failed := fun _ => minds.failed ⟨error, rfl⟩ }
    | ok peeked => exact { minds with failed := by simp }

theorem next_minds (tidy : stream.Tidy) (sound : host.disk.Sound) :
    Ensures (stream.next (ε := ε)) host fun result later =>
      Minds stream result.2 (∃ error, result.1 = .error error) host.disk later.disk := by
  simp only [next]
  split
  · exact ⟨.refl sound, id, tidy, id, by simp⟩
  · exact advance_minds tidy sound

/-- A request to close is answered as one. -/
theorem play_closing [RecordSource σ α ε] {events : List StreamEvent} (closing : .call .close ∈ events) :
    Ensures (stream.play (ε := ε) events) host fun result _ => ∃ answer ∈ result.1, answer.isClosing := by
  induction events generalizing stream host with
  | nil => cases closing
  | cons event events ih =>
    unfold play
    rcases List.mem_cons.mp closing with rfl | later
    · rw [Ensures.bind_iff]
      apply Ensures.intro
      rintro ⟨answer, stream'⟩ middle ran
      obtain ⟨closed, rfl⟩ : ∃ closed, answer = .closed closed := ⟨_, (congrArg (·.1.1) ran).symm⟩
      exact ⟨.closed closed, List.mem_cons_self, rfl⟩
    · have found (answer : StreamAnswer α ε) (answers : List (StreamAnswer α ε))
          (present : ∃ other ∈ answers, other.isClosing) : ∃ other ∈ answer :: answers, other.isClosing :=
        present.imp fun _ found => ⟨List.mem_cons_of_mem answer found.1, found.2⟩
      cases event with
      | call call =>
        rw [Ensures.bind_iff]
        apply Ensures.intro
        rintro ⟨answer, stream'⟩ middle -
        rw [Ensures.bind_iff]
        exact (ih later).mono fun result _ present => found answer result.1 present
      | outside change => exact ih later

/-! ## Streams with their sources -/

variable {own : σ → Nat → Prop}

/-- The directories of a stream: those of its source, and that of its store. -/
def Has (own : σ → Nat → Prop) (stream : SortedStream σ α) (directory : Nat) : Prop :=
  own stream.source directory ∨ stream.store.directory = some directory

/-- What a call does to the directories. -/
structure Cares (own : σ → Nat → Prop) (before after : SortedStream σ α) (failed : Prop) (disk disk' : Disk) :
    Prop where
  minds : disk.Minds (before.Has own) (after.Has own) disk'
  since : ∀ directory, own after.source directory → own before.source directory ∨ disk.nextDirectory ≤ directory
  unspilled : before.store.directory = none → after.store.directory = none
  tidy : after.Tidy
  ended : before.phase.Ended → after.phase.Ended
  failed : failed → after.phase.Ended

theorem Cares.refl (tidy : stream.Tidy) {disk : Disk} (sound : disk.Sound) : Cares own stream stream False disk disk :=
  ⟨.refl sound, fun _ => .inl, id, tidy, id, False.elim⟩

theorem Cares.trans {before middle after : SortedStream σ α} {failed failed' : Prop} {disk disk' disk'' : Disk}
    (first : Cares own before middle failed disk disk') (second : Cares own middle after failed' disk' disk'') :
    Cares own before after (failed ∨ failed') disk disk'' where
  minds := first.minds.trans second.minds
  since directory owned := by
    rcases second.since directory owned with earlier | new
    · exact first.since directory earlier
    · exact .inr (Nat.le_trans first.minds.nextDirectory_le new)
  unspilled := second.unspilled ∘ first.unspilled
  tidy := second.tidy
  ended ended := second.ended (first.ended ended)
  failed either := either.elim (fun failed => second.ended (first.failed failed)) second.failed

/-- A request leaves the source with what it has. -/
theorem Minds.cares {before after : SortedStream σ α} {failed failed' : Prop} {disk disk' : Disk}
    (minds : Minds before after failed disk disk') (onward : Onward before after) (implies : failed' → failed) :
    Cares own before after failed' disk disk' where
  minds := by
    unfold Has
    rw [onward.source_eq]
    exact minds.minds.beside (own before.source)
  since directory owned := .inl (onward.source_eq ▸ owned)
  unspilled := minds.unspilled
  tidy := minds.tidy
  ended := minds.ended
  failed failed' := minds.failed (implies failed')

variable [RecordSource σ α ε]

/-- Closing removes the directory of the store whether or not the source can be closed. -/
theorem close_cares (contained : Contained (ε := ε) (α := α) own) (tidy : stream.Tidy) (sound : host.disk.Sound) :
    Ensures (stream.close (ε := ε)) host fun result later => Cares own stream result.2 True host.disk later.disk := by
  simp only [close]
  split
  · next closed => exact ⟨.refl sound, fun _ => .inl, id, tidy, id, fun _ => Phase.ended_of_closed closed⟩
  · rw [Ensures.bind_iff]
    apply (stream.store.close_minds sound).mono
    rintro ⟨disposed, store⟩ middle ⟨removed, gone⟩
    dsimp only at removed gone ⊢
    rw [Ensures.bind_iff]
    apply (contained.close stream.source middle removed.sound).mono
    rintro ⟨closed, source⟩ later released
    have minds : host.disk.Minds (stream.Has own)
        (fun directory => own source directory ∨ store.directory = some directory) later.disk :=
      (removed.beside (own stream.source)).trans (released.beside' (store.directory = some ·))
    have since : ∀ directory, own source directory →
        own stream.source directory ∨ host.disk.nextDirectory ≤ directory := by
      intro directory owned
      rcases released.since directory owned with earlier | ⟨new, -⟩
      · exact .inl earlier
      · exact .inr (Nat.le_trans removed.nextDirectory_le new)
    cases closed with
    | error error => exact ⟨minds, since, fun _ => gone, fun _ => gone, fun _ => trivial, fun _ => trivial⟩
    | ok =>
      cases disposed with
      | error error => exact ⟨minds, since, fun _ => gone, fun _ => gone, fun _ => trivial, fun _ => trivial⟩
      | ok => exact ⟨minds, since, fun _ => gone, fun _ => gone, fun _ => trivial, fun _ => trivial⟩

theorem discard_cares [ErrorText ε] (contained : Contained (ε := ε) (α := α) own) (tidy : stream.Tidy)
    (sound : host.disk.Sound) :
    Ensures (stream.discard (ε := ε)) host fun dropped later => Cares own stream dropped True host.disk later.disk := by
  simp only [discard]
  split
  · next closed => exact ⟨.refl sound, fun _ => .inl, id, tidy, id, fun _ => Phase.ended_of_closed closed⟩
  · rw [Ensures.bind_iff]
    apply (close_cares contained tidy sound).mono
    rintro ⟨closed, stream'⟩ later cares
    cases closed with
    | error error => exact cares
    | ok => exact cares

theorem perform_cares (contained : Contained (ε := ε) (α := α) own) (call : StreamCall) (tidy : stream.Tidy)
    (sound : host.disk.Sound) :
    Ensures (stream.perform (ε := ε) call) host fun result later =>
      Cares own stream result.2 result.1.IsLast host.disk later.disk := by
  simp only [perform]
  cases call with
  | hasNext =>
    rw [Ensures.bind_iff]
    apply ((hasNext_minds tidy sound).and (stream.hasNext_onward host)).mono
    rintro ⟨answer, stream'⟩ later ⟨minds, onward⟩
    exact minds.cares onward StreamAnswer.error_of_isLast_more
  | next =>
    rw [Ensures.bind_iff]
    apply ((next_minds tidy sound).and (stream.next_onward host)).mono
    rintro ⟨answer, stream'⟩ later ⟨minds, onward⟩
    exact minds.cares onward StreamAnswer.error_of_isLast_next
  | iterate =>
    rw [Ensures.bind_iff]
    apply ((next_minds tidy sound).and (stream.next_onward host)).mono
    rintro ⟨answer, stream'⟩ later ⟨minds, onward⟩
    exact minds.cares onward StreamAnswer.error_of_isLast_iterated
  | close =>
    rw [Ensures.bind_iff]
    apply (close_cares contained tidy sound).mono
    rintro ⟨answer, stream'⟩ later cares
    exact { cares with failed := fun _ => cares.failed trivial }

theorem play_cares (contained : Contained (ε := ε) (α := α) own) {events : List StreamEvent}
    (harmless : ∀ event ∈ events, event.Harmless) (tidy : stream.Tidy) (sound : host.disk.Sound) :
    Ensures (stream.play (ε := ε) events) host fun result later =>
      Cares own stream result.2 (∃ answer ∈ result.1, answer.IsLast) host.disk later.disk := by
  induction events generalizing stream host with
  | nil => exact { Cares.refl tidy sound with failed := fun ⟨_, present, _⟩ => absurd present List.not_mem_nil }
  | cons event events ih =>
    obtain ⟨first, rest⟩ := List.forall_mem_cons.mp harmless
    unfold play
    cases event with
    | call call =>
      rw [Ensures.bind_iff]
      apply (perform_cares contained call tidy sound).mono
      rintro ⟨answer, stream'⟩ later cares
      rw [Ensures.bind_iff]
      apply (ih rest cares.tidy cares.minds.sound).mono
      rintro ⟨answers, stream''⟩ last cares'
      refine { cares.trans cares' with failed := ?_ }
      rintro ⟨other, present, final⟩
      apply (cares.trans cares').failed
      rcases List.mem_cons.mp present with rfl | after
      · exact .inl final
      · exact .inr ⟨other, after, final⟩
    | outside change =>
      obtain ⟨damage, path, rfl⟩ := first
      rw [Ensures.bind_iff, Ensures.onDisk_iff]
      have damaged : Cares own stream stream False host.disk (host.disk.damage damage path) :=
        ⟨.damage sound damage path, fun _ => .inl, id, tidy, id, False.elim⟩
      apply (ih rest tidy damaged.minds.sound).mono
      rintro result last cares
      exact { damaged.trans cares with failed := fun failed => (damaged.trans cares).failed (.inr failed) }

end SortedStream

/-! ## Sorting -/

variable {own : σ → Nat → Prop} {owned : Nat → Prop} {before disk after : Disk} {source source' : σ}
  {store store' : SpillStore}

/-- The directories made since the start are the source's or the store's, and the two have none in common. -/
structure Accounted (own : σ → Nat → Prop) (owned : Nat → Prop) (before : Disk) (source : σ) (store : SpillStore)
    (disk : Disk) : Prop where
  minds : before.Minds owned (fun directory => own source directory ∨ store.directory = some directory) disk
  bounded : ∀ directory, own source directory ∨ store.directory = some directory → directory < disk.nextDirectory
  apart : ∀ directory, store.directory = some directory → ¬ own source directory

theorem Accounted.ofSource (accounted : Accounted own owned before source store disk)
    (minds : disk.Minds (own source) (own source') after) : Accounted own owned before source' store after where
  minds := accounted.minds.trans (minds.beside' (store.directory = some ·))
  bounded directory has := by
    have nextDirectory_le := minds.nextDirectory_le
    rcases has with theirs | mine
    · rcases minds.since directory theirs with earlier | ⟨-, small⟩
      · exact Nat.lt_of_lt_of_le (accounted.bounded directory (.inl earlier)) nextDirectory_le
      · exact small
    · exact Nat.lt_of_lt_of_le (accounted.bounded directory (.inr mine)) nextDirectory_le
  apart directory mine theirs := by
    rcases minds.since directory theirs with earlier | ⟨new, -⟩
    · exact accounted.apart directory mine earlier
    · exact Nat.not_le.mpr (accounted.bounded directory (.inr mine)) new

theorem Accounted.ofStore (accounted : Accounted own owned before source store disk)
    (minds : disk.Minds (store.directory = some ·) (store'.directory = some ·) after) :
    Accounted own owned before source store' after where
  minds := accounted.minds.trans (minds.beside (own source))
  bounded directory has := by
    have nextDirectory_le := minds.nextDirectory_le
    rcases has with theirs | mine
    · exact Nat.lt_of_lt_of_le (accounted.bounded directory (.inl theirs)) nextDirectory_le
    · rcases minds.since directory mine with earlier | ⟨-, small⟩
      · exact Nat.lt_of_lt_of_le (accounted.bounded directory (.inr earlier)) nextDirectory_le
      · exact small
  apart directory mine theirs := by
    rcases minds.since directory mine with earlier | ⟨new, -⟩
    · exact accounted.apart directory earlier theirs
    · exact Nat.not_le.mpr (accounted.bounded directory (.inl theirs)) new

/-- What is left after a stream: nothing in the directory it had, and no directory that was not there before and
is not the source's. -/
structure NothingLeft (owned : Nat → Prop) (directory : Option Nat) (before after : Disk) : Prop where
  known : ∀ other, after.hasDirectory other → before.hasDirectory other ∨ owned other
  gone : ∀ other, directory = some other → after.hasDirectory other = false
  names : ∀ path, after.entry? path ≠ none → after.hasDirectory path.directory

/-- With the store's directory gone, what is left was there before or is the source's. -/
theorem Accounted.nothingLeft (accounted : Accounted own owned before source store disk)
    (gone : store.directory = none) : NothingLeft (own source) none before disk where
  known directory present := by
    refine (accounted.minds.known directory present).imp_right ?_
    rw [gone]
    exact fun has => has.elim id nofun
  gone := nofun
  names := accounted.minds.sound.inside

/-- A stream that has given up its directory leaves nothing. -/
theorem Accounted.nothingLeft_of_released {stream stream' : SortedStream σ α} {failed : Prop}
    (accounted : Accounted own owned before stream.source stream.store disk)
    (cares : SortedStream.Cares own stream stream' failed disk after) (released : stream'.store.directory = none) :
    NothingLeft (own stream'.source) stream.store.directory before after := by
  have theirs : ∀ directory, stream'.Has own directory → own stream'.source directory := by
    intro directory has
    rw [SortedStream.Has, released] at has
    exact has.elim id nofun
  refine ⟨?_, ?_, cares.minds.sound.inside⟩
  · intro directory present
    exact ((accounted.minds.trans cares.minds).known directory present).imp_right (theirs directory)
  · intro directory mine
    rw [Bool.eq_false_iff]
    intro present
    -- The source has not come to have the directory either, since it only takes new ones.
    rcases cares.since directory (theirs directory (cares.minds.held directory (.inr mine) present)) with earlier | new
    · exact accounted.apart directory mine earlier
    · exact Nat.not_le.mpr (accounted.bounded directory (.inr mine)) new

/-- A stream that has ended leaves nothing. -/
theorem Accounted.nothingLeft_of_cares {stream stream' : SortedStream σ α} {failed : Prop}
    (accounted : Accounted own owned before stream.source stream.store disk)
    (cares : SortedStream.Cares own stream stream' failed disk after) (ending : failed) :
    NothingLeft (own stream'.source) stream.store.directory before after :=
  accounted.nothingLeft_of_released cares (cares.tidy (cares.failed ending))

namespace Filling

theorem accept_minds (plan : RunPlan α) (filling : Filling σ α) (record : α) {host : Host} (sound : host.disk.Sound) :
    Ensures (accept (ε := ε) plan filling record) host fun result later =>
      host.disk.Minds (filling.store.directory = some ·) (result.2.store.directory = some ·) later.disk := by
  refine accept_rule (fun _ => .refl sound) fun _ start same => ?_
  rw [← same] at sound ⊢
  apply (filling.store.write_minds plan.format _ sound).mono
  rintro ⟨written, store⟩ later minds
  cases written with
  | error error => exact minds
  | ok handle => exact minds

theorem readAll_accounted [RecordSource σ α ε] (contained : Contained (ε := ε) (α := α) own) (plan : RunPlan α)
    {filling : Filling σ α} {host : Host}
    (accounted : Accounted own owned before filling.source filling.store host.disk) :
    Ensures (modifyGet (readAll (ε := ε) plan filling)) host fun result later =>
      Accounted own owned before result.2.source result.2.store later.disk := by
  refine readAll_rule (fun filling host => Accounted own owned before filling.source filling.store host.disk) ?_
    accounted
  intro filling start accounted
  apply (contained.next filling.source start accounted.minds.sound).mono
  rintro ⟨answer, source⟩ later minds
  have asked : Accounted own owned before source filling.store later.disk := accounted.ofSource minds
  match answer with
  | .error error => exact asked
  | .ok none => exact asked
  | .ok (some record) =>
    have taken := accept_source (ε := ε) plan { filling with source } record later
    apply ((accept_minds plan _ record minds.sound).and taken).mono
    rintro ⟨accepted, fuller⟩ last ⟨minds', same⟩
    obtain rfl : fuller.source = source := same
    cases accepted with
    | error error => exact asked.ofStore minds'
    | ok => exact asked.ofStore minds'

theorem run_accounted [RecordSource σ α ε] (contained : Contained (ε := ε) (α := α) own) (plan : RunPlan α)
    {host : Host} (accounted : Accounted own owned before source store host.disk) :
    Ensures (run plan source store) host fun result later =>
      Accounted own owned before result.2.source result.2.store later.disk := by
  simp only [run]
  rw [Ensures.bind_iff]
  apply (readAll_accounted contained plan accounted).mono
  rintro ⟨answer, filling⟩ later accounted'
  cases answer with
  | error error => exact accounted'
  | ok =>
    dsimp only
    rw [Ensures.bind_iff]
    apply (filling.conclude_disk plan later).mono
    intro outcome last same
    change Accounted own owned before filling.source filling.store last.disk
    rw [same]
    exact accounted'

end Filling

namespace Sorter

variable [RecordSource σ α ε] [ErrorText ε] {host : Host}

theorem releaseSource_minds (contained : Contained (ε := ε) (α := α) own) (sound : host.disk.Sound) :
    Ensures (releaseSource (ε := ε) source) host fun released later =>
      host.disk.Minds (own source) (own released) later.disk := by
  simp only [releaseSource]
  rw [Ensures.bind_iff]
  apply (contained.close source host sound).mono
  rintro ⟨closed, source'⟩ later minds
  cases closed with
  | error error => exact minds
  | ok => exact minds

theorem position_accounted (contained : Contained (ε := ε) (α := α) own) (sorter : Sorter) {stream : SortedStream σ α}
    (tidy : stream.Tidy) (accounted : Accounted own owned before stream.source stream.store host.disk) :
    Ensures (sorter.position stream) host fun result later =>
      match result with
      | .error failure => NothingLeft (own failure.source) none before later.disk
      | .ok stream => stream.Tidy ∧ Accounted own owned before stream.source stream.store later.disk := by
  refine position_rule fun start same => ?_
  rw [← same] at accounted
  have skipped : Ensures (stream.skip (ε := ε) sorter.options.offset) start fun result later =>
      result.2.Tidy ∧ Accounted own owned before result.2.source result.2.store later.disk := by
    refine SortedStream.skip_rule (fun stream later =>
      stream.Tidy ∧ Accounted own owned before stream.source stream.store later.disk) ?_ (fun _ _ kept => kept)
      ⟨tidy, accounted⟩
    rintro stream middle ⟨tidy, accounted⟩
    apply ((SortedStream.advance_minds tidy accounted.minds.sound).and (stream.advance_onward middle)).mono
    rintro ⟨answer, stream'⟩ later ⟨minds, onward⟩
    have kept : stream'.Tidy ∧ Accounted own owned before stream'.source stream'.store later.disk := by
      refine ⟨minds.tidy, ?_⟩
      rw [show stream'.source = stream.source from onward.source_eq]
      exact accounted.ofStore minds.minds
    match answer with
    | .error error => exact kept
    | .ok none => exact kept
    | .ok (some record) => exact kept
  apply skipped.mono
  rintro ⟨answer, stream'⟩ later ⟨tidy', accounted'⟩
  cases answer with
  | error error =>
    apply (SortedStream.discard_cares contained tidy' accounted'.minds.sound).mono
    intro dropped last cares
    exact { accounted'.nothingLeft_of_cares cares trivial with gone := nofun }
  | ok => exact ⟨tidy', accounted'⟩

/-- When sorting fails nothing is left, and otherwise what there is is accounted for. -/
theorem sortBy_accounted (contained : Contained (ε := ε) (α := α) own) (sorter : Sorter) (format : SpillFormat α)
    (compare : Comparison α) (sound : host.disk.Sound)
    (given : ∀ directory, own source directory → directory < host.disk.nextDirectory) :
    Ensures (sorter.sortBy format compare source) host fun result later =>
      match result with
      | .error failure => NothingLeft (own failure.source) none host.disk later.disk
      | .ok stream => stream.Tidy ∧ Accounted own (own source) host.disk stream.source stream.store later.disk := by
  have accounted : Accounted own (own source) host.disk source
      (.new sorter.options.place sorter.options.bufferSize) host.disk :=
    ⟨⟨sound, Nat.le_refl _, fun _ => .inl, fun _ owned _ => .inl owned, fun _ has => has.elim .inl nofun⟩,
      fun directory has => has.elim (given directory) nofun, nofun⟩
  simp only [sortBy]
  rw [Ensures.bind_iff]
  apply (Filling.run_accounted contained _ accounted).mono
  rintro ⟨answer, filling⟩ later accounted'
  cases answer with
  | error error =>
    dsimp only
    rw [Ensures.bind_iff]
    apply abort_rule
    apply (filling.store.discard_minds accounted'.minds.sound).mono
    rintro store middle ⟨minds, gone⟩
    have discarded := accounted'.ofStore minds
    refine ⟨fun _ => discarded.nothingLeft gone, fun _ => ?_⟩
    apply (releaseSource_minds contained minds.sound).mono
    intro released last minds'
    exact (discarded.ofSource minds').nothingLeft gone
  | ok outcome =>
    have tidy : (openStream compare filling outcome).Tidy := by cases outcome <;> exact fun ended => ended.elim
    have accounted'' : Accounted own (own source) host.disk (openStream compare filling outcome).source
        (openStream compare filling outcome).store later.disk := by cases outcome <;> exact accounted'
    exact position_accounted contained sorter tidy accounted''

/-- Once sorting has failed, or its stream has answered with an error, was closed or is dropped, neither the
directory of the runs nor anything in it is left, whatever has happened to single files by then. -/
theorem sortBy_nothingLeft (contained : Contained (ε := ε) (α := α) own) (sorter : Sorter) (format : SpillFormat α)
    (compare : Comparison α) (sound : host.disk.Sound)
    (given : ∀ directory, own source directory → directory < host.disk.nextDirectory) :
    Ensures (sorter.sortBy format compare source) host fun result later =>
      match result with
      | .error failure => NothingLeft (own failure.source) none host.disk later.disk
      | .ok stream => ∀ events : List StreamEvent, (∀ event ∈ events, event.Harmless) →
          Ensures (stream.play (ε := ε) events) later fun used middle =>
            ((∃ answer ∈ used.1, answer.IsLast) →
              NothingLeft (own used.2.source) stream.store.directory host.disk middle.disk) ∧
            Ensures (used.2.discard (ε := ε)) middle fun dropped last =>
              NothingLeft (own dropped.source) stream.store.directory host.disk last.disk := by
  apply (sortBy_accounted contained sorter format compare sound given).mono
  intro result later outcome
  cases result with
  | error failure => exact outcome
  | ok stream =>
    obtain ⟨tidy, accounted⟩ := outcome
    intro events harmless
    apply (SortedStream.play_cares contained harmless tidy accounted.minds.sound).mono
    rintro ⟨answers, used⟩ middle cares
    refine ⟨accounted.nothingLeft_of_cares cares, ?_⟩
    apply (SortedStream.discard_cares contained cares.tidy cares.minds.sound).mono
    intro dropped last cares'
    exact accounted.nothingLeft_of_cares (cares.trans cares') (.inr trivial)

/-- Five numbers in pages of two, with a directory in the place of the first run before the stream is closed. -/
theorem sortBy_nothingLeft_words :
    Ensures (sortBy ⟨{ SorterOptions.standard with pageSize := 2 }, by decide⟩ .words Ord.compare
      (Script.ofRecords [3, 1, 2, 1, 0] : Script Int64 Empty)) (Host.fresh .empty) fun result later =>
        ∃ stream, result = .ok stream ∧
          Ensures (stream.play (ε := Empty) [.call .next, .outside (Disk.damage · .becomeDirectory ⟨0, runName 0⟩),
            .call .close]) later fun _ middle =>
              NothingLeft (fun _ => False) stream.store.directory .empty middle.disk := by
  have harmless : ∀ event ∈ ([.call .next, .outside (Disk.damage · .becomeDirectory ⟨0, runName 0⟩),
      .call .close] : List StreamEvent), event.Harmless := by
    simp only [List.forall_mem_cons, StreamEvent.Harmless]
    exact ⟨trivial, ⟨_, _, rfl⟩, trivial, List.forall_mem_nil _⟩
  apply Ensures.intro
  intro result later ran
  obtain ⟨stream, rfl, -⟩ := (sortBy_succeeds SpillFormat.words_roundTrips Disk.sound_empty (yields_ofRecords _ _)
    (.inr (SpillStore.accepts_words _))).of_run ran
  have tidied := (sortBy_nothingLeft contained_script _ _ _ Disk.sound_empty nofun).of_run ran
  refine ⟨stream, rfl, ((tidied _ harmless).and (SortedStream.play_closing (by simp))).mono ?_⟩
  rintro ⟨answers, used⟩ middle ⟨left, answer, present, closing⟩
  exact left.1 ⟨answer, present, .inr closing⟩

end Sorter

end SpillSort
