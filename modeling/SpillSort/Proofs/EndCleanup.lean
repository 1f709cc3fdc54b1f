import SpillSort.Proofs.Cleanup
import SpillSort.Proofs.CutFiles
import SpillSort.Proofs.Removal

/-! # The end of a stream and its directory

A stream that says that it has no more records has given up the directory of its runs by then, and need not
be closed for that. The one exception is a limit of zero: it is used up before anything is asked for, and no
request comes to the place where the runs are removed. They stay until the stream is closed or dropped.
-/

namespace SpillSort

variable {σ α ε : Type}

/-- Pulling a phase does not end it. -/
theorem Phase.pull_ended (compare : Comparison α) (phase : Phase α) (host : Host) :
    Ensures (phase.pull compare) host fun result _ => result.2.Ended ↔ phase.Ended := by
  match phase with
  | .memory [] => exact Iff.rfl
  | .memory (_ :: _) => exact Iff.rfl
  | .merging merger =>
    simp only [pull]
    rw [Ensures.bind_iff]
    exact Ensures.intro fun _ _ _ => Iff.rfl
  | .exhausted => exact Iff.rfl
  | .closed => exact Iff.rfl

namespace StreamAnswer

theorem eq_false_of_saysEnd_more {answer : Except (SortError ε) Bool}
    (ends : (more answer : StreamAnswer α ε).saysEnd) : answer = .ok false := by
  match answer with
  | .error error => cases ends
  | .ok true => cases ends
  | .ok false => rfl

theorem eq_none_of_saysEnd_next {answer : Except (SortError ε) (Option α)} (ends : (next answer).saysEnd) :
    answer = .ok none := by
  match answer with
  | .error error => cases ends
  | .ok (some record) => cases ends
  | .ok none => rfl

theorem eq_none_of_saysEnd_iterated {answer : Except (SortError ε) (Option α)} (ends : (iterated answer).saysEnd) :
    answer = .ok none := by
  match answer with
  | .error error => cases ends
  | .ok (some record) => cases ends
  | .ok none => rfl

end StreamAnswer

/-- A call other than a request to close, or a change of a single file from outside. -/
def StreamEvent.Asks (event : StreamEvent) : Prop := event.Harmless ∧ event ≠ .call .close

namespace SortedStream

variable {stream : SortedStream σ α}

/-- A stream that will give nothing more, because it has ended or its limit is used up, has no directory. -/
structure Prompt (stream : SortedStream σ α) : Prop where
  tidy : stream.Tidy
  limited : stream.remaining = some 0 → stream.store.directory = none

/-- What one request does to a prompt stream: it may give up the directory, and must have done so where it says
that there are no more records. -/
structure Prompted (before after : SortedStream σ α) (ended : Prop) : Prop where
  prompt : after.Prompt
  released : before.store.directory = none → after.store.directory = none
  ended : ended → after.store.directory = none

theorem Prompted.of_released {after : SortedStream σ α} (released : after.store.directory = none) (ended : Prop) :
    Prompted stream after ended :=
  ⟨⟨fun _ => released, fun _ => released⟩, fun _ => released, fun _ => released⟩

theorem Prompted.mono {after : SortedStream σ α} {ended ended' : Prop} (prompted : Prompted stream after ended)
    (implies : ended' → ended) : Prompted stream after ended' :=
  { prompted with ended := prompted.ended ∘ implies }

theorem finish_released (tidy : stream.Tidy) (host : Host) :
    Ensures stream.finish host fun ended _ => ended.store.directory = none := by
  simp only [finish]
  split
  · next exhausted =>
    apply tidy
    rw [exhausted]
    trivial
  · rw [Ensures.bind_iff]
    apply (stream.store.discard_store host).mono
    rintro store later rfl
    rfl

theorem settle_prompted (tidy : stream.Tidy) (answer : Option (Except SpillError α)) (host : Host) :
    Ensures (stream.settle (ε := ε) answer) host fun result _ => Prompted stream result.2 (result.1 = .ok none) := by
  match answer with
  | none =>
    simp only [settle]
    rw [Ensures.bind_iff]
    exact (finish_released tidy host).mono fun _ _ released => .of_released released _
  | some (.error error) =>
    simp only [settle]
    rw [Ensures.bind_iff]
    refine Ensures.report fun start _ => ?_
    rw [Ensures.bind_iff]
    exact (finish_released tidy start).mono fun _ _ released => .of_released released _
  | some (.ok record) =>
    simp only [settle]
    split
    · have tidy' : { stream with remaining := stream.remaining.map (· - 1) }.Tidy := tidy
      rw [Ensures.bind_iff]
      exact (finish_released tidy' host).mono fun _ _ released => .of_released released _
    · next left => exact ⟨⟨tidy, fun none_left => absurd none_left left⟩, id, by rintro ⟨⟩⟩

theorem advance_prompted (prompt : stream.Prompt) (host : Host) :
    Ensures (stream.advance (ε := ε)) host fun result _ => Prompted stream result.2 (result.1 = .ok none) := by
  simp only [advance]
  split
  · exact ⟨prompt, id, by rintro ⟨⟩⟩
  · split
    · next limited => exact ⟨prompt, id, fun _ => prompt.limited limited⟩
    · rw [Ensures.bind_iff]
      apply (stream.phase.pull_ended stream.compare host).mono
      rintro ⟨answer, phase⟩ later same
      have tidy : { stream with phase }.Tidy := fun ended => prompt.tidy (same.mp ended)
      apply (settle_prompted tidy answer later).mono
      exact fun _ _ prompted => ⟨prompted.prompt, prompted.released, prompted.ended⟩

theorem hasNext_prompted (prompt : stream.Prompt) (host : Host) :
    Ensures (stream.hasNext (ε := ε)) host fun result _ => Prompted stream result.2 (result.1 = .ok false) := by
  simp only [hasNext]
  split
  · exact ⟨prompt, id, by rintro ⟨⟩⟩
  · rw [Ensures.bind_iff]
    apply (advance_prompted prompt host).mono
    rintro ⟨answer, stream'⟩ later prompted
    rcases answer with error | _ | record
    · exact ⟨prompted.prompt, prompted.released, by rintro ⟨⟩⟩
    · exact ⟨⟨prompted.prompt.tidy, prompted.prompt.limited⟩, prompted.released, fun _ => prompted.ended rfl⟩
    · exact ⟨⟨prompted.prompt.tidy, prompted.prompt.limited⟩, prompted.released, by rintro ⟨⟩⟩

theorem next_prompted (prompt : stream.Prompt) (host : Host) :
    Ensures (stream.next (ε := ε)) host fun result _ => Prompted stream result.2 (result.1 = .ok none) := by
  simp only [next]
  split
  · exact ⟨⟨prompt.tidy, prompt.limited⟩, id, by rintro ⟨⟩⟩
  · exact advance_prompted prompt host

/-- The stream has nothing more to give, because it has ended or its limit is used up. -/
def Spent (stream : SortedStream σ α) : Prop :=
  stream.phase = .exhausted ∨ stream.phase ≠ .closed ∧ stream.remaining = some 0

/-- Nothing is done for one who asks for more. -/
theorem advance_of_spent (spent : stream.Spent) (host : Host) :
    Ensures (stream.advance (ε := ε)) host fun result later => result = (.ok none, stream) ∧ later = host := by
  rcases spent with exhausted | ⟨opened, limited⟩
  · simp only [advance, exhausted]
    split
    · exact ⟨rfl, rfl⟩
    · simp only [Phase.pull, settle, finish]
      have same : { stream with phase := .exhausted } = stream := by rw [← exhausted]
      exact ⟨congrArg (Prod.mk _) same, rfl⟩
  · simp only [advance]
    split
    · exact ⟨rfl, rfl⟩
    · next unlimited => exact absurd limited unlimited

variable [RecordSource σ α ε] {host : Host}

theorem perform_prompted {call : StreamCall} (prompt : stream.Prompt) (asks : call ≠ .close) (host : Host) :
    Ensures (stream.perform (ε := ε) call) host fun result _ => Prompted stream result.2 (result.1.saysEnd) := by
  simp only [perform]
  cases call with
  | hasNext =>
    rw [Ensures.bind_iff]
    exact (hasNext_prompted prompt host).mono fun _ _ prompted => prompted.mono StreamAnswer.eq_false_of_saysEnd_more
  | next =>
    rw [Ensures.bind_iff]
    exact (next_prompted prompt host).mono fun _ _ prompted => prompted.mono StreamAnswer.eq_none_of_saysEnd_next
  | iterate =>
    rw [Ensures.bind_iff]
    exact (next_prompted prompt host).mono fun _ _ prompted => prompted.mono StreamAnswer.eq_none_of_saysEnd_iterated
  | close => exact absurd rfl asks

/-- Once one answer says that there are no more records the directory has been given up. -/
theorem play_prompted {events : List StreamEvent} (prompt : stream.Prompt) (asks : ∀ event ∈ events, event.Asks)
    (host : Host) :
    Ensures (stream.play (ε := ε) events) host fun result _ =>
      Prompted stream result.2 (∃ answer ∈ result.1, answer.saysEnd) := by
  induction events generalizing stream host with
  | nil => exact ⟨prompt, id, fun ⟨_, present, _⟩ => absurd present List.not_mem_nil⟩
  | cons event events ih =>
    obtain ⟨first, rest⟩ := List.forall_mem_cons.mp asks
    unfold play
    cases event with
    | call call =>
      rw [Ensures.bind_iff]
      apply (perform_prompted prompt (fun same => first.2 (congrArg _ same)) host).mono
      rintro ⟨answer, stream'⟩ later prompted
      rw [Ensures.bind_iff]
      apply (ih prompted.prompt rest later).mono
      rintro ⟨answers, stream''⟩ last prompted'
      refine ⟨prompted'.prompt, prompted'.released ∘ prompted.released, ?_⟩
      rintro ⟨other, present, ends⟩
      rcases List.mem_cons.mp present with rfl | after
      · exact prompted'.released (prompted.ended ends)
      · exact prompted'.ended ⟨other, after, ends⟩
    | outside change =>
      rw [Ensures.bind_iff, Ensures.onDisk_iff]
      exact ih prompt rest _

theorem perform_of_spent {call : StreamCall} (spent : stream.Spent) (nothing : stream.peeked = none)
    (asks : call ≠ .close) (host : Host) :
    Ensures (stream.perform (ε := ε) call) host fun result later =>
      (result.2 = stream ∧ later = host) ∧ result.1.saysEnd := by
  have advanced := stream.advance_of_spent (ε := ε) spent host
  cases call with
  | hasNext =>
    simp only [perform, hasNext, nothing]
    rw [Ensures.bind_iff, Ensures.bind_iff]
    apply advanced.mono
    rintro result later ⟨rfl, rfl⟩
    have same : { stream with peeked := none } = stream := by rw [← nothing]
    exact ⟨⟨same, rfl⟩, rfl⟩
  | next =>
    simp only [perform, next, nothing]
    rw [Ensures.bind_iff]
    apply advanced.mono
    rintro result later ⟨rfl, rfl⟩
    exact ⟨⟨rfl, rfl⟩, rfl⟩
  | iterate =>
    simp only [perform, next, nothing]
    rw [Ensures.bind_iff]
    apply advanced.mono
    rintro result later ⟨rfl, rfl⟩
    exact ⟨⟨rfl, rfl⟩, rfl⟩
  | close => exact absurd rfl asks

/-- A stream that has nothing more to give answers every request with its end, and does nothing for it. -/
theorem play_of_spent {calls : List StreamCall} (spent : stream.Spent) (nothing : stream.peeked = none)
    (asks : .close ∉ calls) (host : Host) :
    Ensures (stream.play (ε := ε) (calls.map .call)) host fun result later =>
      (result.2 = stream ∧ later = host) ∧ ∀ answer ∈ result.1, answer.saysEnd := by
  induction calls with
  | nil => exact ⟨⟨rfl, rfl⟩, List.forall_mem_nil _⟩
  | cons call calls ih =>
    have rest := ih (fun present => asks (List.mem_cons_of_mem _ present))
    simp only [List.map_cons, play]
    rw [Ensures.bind_iff]
    have first : call ≠ .close := fun same => asks (same ▸ List.mem_cons_self)
    apply (perform_of_spent spent nothing first host).mono
    rintro ⟨answer, stream'⟩ later ⟨⟨rfl, rfl⟩, ends⟩
    rw [Ensures.bind_iff]
    apply rest.mono
    rintro ⟨answers, stream''⟩ last ⟨same, others⟩
    exact ⟨same, List.forall_mem_cons.mpr ⟨ends, others⟩⟩

end SortedStream

/-- Where the records fill a page the store has its directory when they have been read. -/
theorem Filling.run_spilled [RecordSource σ α ε] {plan : RunPlan α} {own : Nat → Prop} {records : List α} {source : σ}
    {place : Place} {bufferSize : Option Nat} {host : Host} (yields : Yields records source own host.disk)
    (sound : host.disk.Sound) (positive : 0 < plan.pageSize) (full : plan.pageSize ≤ records.length) :
    Ensures (run (ε := ε) plan source (.new place bufferSize)) host fun result later => ∀ outcome,
      result.1 = .ok outcome → ∃ directory, result.2.store.directory = some directory ∧
        later.disk.hasDirectory directory := by
  have cuts : (start plan source (.new place bufferSize)).Cuts plan own [] host.disk := cuts_start positive sound
  simp only [run]
  rw [Ensures.bind_iff]
  apply (readAll_spec yields (.refl _ _) cuts).mono
  rintro ⟨answer, filling⟩ later outcome
  cases answer with
  | error error => rintro other ⟨⟩
  | ok =>
    obtain ⟨own', cuts'⟩ := outcome
    dsimp only
    rw [Ensures.bind_iff]
    apply (filling.conclude_disk plan later).mono
    rintro result last same outcome -
    change ∃ directory, filling.store.directory = some directory ∧ last.disk.hasDirectory directory
    have spilled : filling.runs ≠ [] := by
      intro none_spilled
      have length_eq := cuts'.length_eq
      have room := cuts'.room
      rw [List.nil_append, none_spilled, List.length_nil, Nat.zero_mul] at length_eq
      omega
    obtain ⟨handle, present⟩ := List.exists_mem_of_ne_nil _ spilled
    have mine := cuts'.inside handle present
    exact ⟨_, mine, same ▸ cuts'.ready.present _ mine⟩

/-- Where no page is filled the store has no directory. -/
theorem Filling.run_unspilled [RecordSource σ α ε] {own : σ → Nat → Prop} (contained : Contained (ε := ε) (α := α) own)
    {left : σ → Nat} (bounded : Bounds (ε := ε) (α := α) left) {plan : RunPlan α} {source : σ}
    (few : left source < plan.pageSize) {place : Place} {bufferSize : Option Nat} {host : Host}
    (sound : host.disk.Sound) :
    Ensures (run (ε := ε) plan source (.new place bufferSize)) host fun result later =>
      result.2.store.directory = none ∧ later.disk.Sound := by
  simp only [run]
  rw [Ensures.bind_iff]
  apply (readAll_few bounded (fun host => host.disk.Sound)
    (fun source start sound => (contained.next source start sound).mono fun _ _ minds => minds.sound) few sound).mono
  rintro ⟨answer, filling⟩ later ⟨-, store_eq, sound'⟩
  have unspilled : filling.store.directory = none := congrArg SpillStore.directory store_eq
  cases answer with
  | error error => exact ⟨unspilled, sound'⟩
  | ok =>
    dsimp only
    rw [Ensures.bind_iff]
    apply (filling.conclude_disk plan later).mono
    intro result last same
    exact ⟨unspilled, same ▸ sound'⟩

namespace Sorter

variable [RecordSource σ α ε] [ErrorText ε] {own : σ → Nat → Prop} {source : σ} {host : Host}

/-- The stream of a sorter starts open, with nothing looked at and the whole limit left. -/
theorem sortBy_fresh (sorter : Sorter) (format : SpillFormat α) (compare : Comparison α) (source : σ) (host : Host) :
    Ensures (sorter.sortBy (ε := ε) format compare source) host fun result _ => ∀ stream, result = .ok stream →
      stream.phase ≠ .closed ∧ stream.peeked = none ∧ stream.remaining = sorter.options.limit := by
  refine sortBy_rule (fun _ _ _ => True) (Ensures.intro fun _ _ _ _ _ => trivial) ?_
  rintro outcome filling start start' - -
  have opened : (openStream compare filling outcome).phase ≠ .closed := by cases outcome <;> rintro ⟨⟩
  have nothing : (openStream compare filling outcome).peeked = none := by cases outcome <;> rfl
  have skipped : Ensures (SortedStream.skip (ε := ε) sorter.options.offset (openStream compare filling outcome)) start'
      fun result _ => result.2.phase ≠ .closed ∧ result.2.peeked = none := by
    refine SortedStream.skip_rule (fun stream _ => stream.phase ≠ .closed ∧ stream.peeked = none) ?_
      (fun _ _ kept => kept) ⟨opened, nothing⟩
    rintro stream middle ⟨opened, nothing⟩
    have kept := (stream.bound_advance (ε := ε) middle).2.1
    apply ((stream.advance_onward (ε := ε) middle).and (Ensures.intro fun _ _ ran => ran)).mono
    rintro ⟨answer, stream'⟩ last ⟨onward, ran⟩
    rw [ran] at kept
    have fresh : stream'.phase ≠ .closed ∧ stream'.peeked = none :=
      ⟨opened ∘ onward.closed_iff.mp, kept.trans nothing⟩
    match answer with
    | .error error => exact fresh
    | .ok none => exact fresh
    | .ok (some record) => exact fresh
  exact skipped.mono fun _ _ fresh _ => ⟨fresh.1, fresh.2, rfl⟩

/-- Once an answer of a stream says that there are no more records nothing is left, though the stream has not
been closed. With a limit of zero this is so only if nothing was spilled, or the offset had reached the end;
such a stream gives its end and does nothing for it, however often it is asked. -/
theorem sortBy_ended_nothingLeft (contained : Contained (ε := ε) (α := α) own) (sorter : Sorter)
    (format : SpillFormat α) (compare : Comparison α) (sound : host.disk.Sound)
    (given : ∀ directory, own source directory → directory < host.disk.nextDirectory) :
    Ensures (sorter.sortBy (ε := ε) format compare source) host fun result later => ∀ stream, result = .ok stream →
      ((sorter.options.limit = some 0 → stream.store.directory = none) →
        ∀ events : List StreamEvent, (∀ event ∈ events, event.Asks) →
          Ensures (stream.play (ε := ε) events) later fun used middle => (∃ answer ∈ used.1, answer.saysEnd) →
            NothingLeft (own used.2.source) stream.store.directory host.disk middle.disk) ∧
      (sorter.options.limit = some 0 → ∀ calls : List StreamCall, .close ∉ calls →
        Ensures (stream.play (ε := ε) (calls.map .call)) later fun used middle =>
          (used.2 = stream ∧ middle = later) ∧ ∀ answer ∈ used.1, answer.saysEnd) := by
  apply ((sortBy_accounted contained sorter format compare sound given).and
    (sorter.sortBy_fresh format compare source host)).mono
  rintro result later ⟨outcome, fresh⟩ stream rfl
  obtain ⟨tidy, accounted⟩ := outcome
  obtain ⟨opened, nothing, remaining_eq⟩ := fresh stream rfl
  constructor
  · intro released events asks
    have prompt : stream.Prompt := ⟨tidy, fun limited => released (remaining_eq.symm.trans limited)⟩
    apply ((SortedStream.play_prompted prompt asks later).and
      (SortedStream.play_cares contained (fun event among => (asks event among).1) tidy accounted.minds.sound)).mono
    rintro ⟨answers, used⟩ middle ⟨prompted, cares⟩ ends
    exact accounted.nothingLeft_of_released cares (prompted.ended ends)
  · intro limited calls asks
    exact SortedStream.play_of_spent (.inr ⟨opened, remaining_eq.trans limited⟩) nothing asks later

/-- Five numbers in pages of two, all skipped. The directory is gone when the stream is asked whether it has more. -/
theorem sortBy_ended_nothingLeft_words :
    Ensures (sortBy ⟨{ SorterOptions.standard with pageSize := 2, offset := 5 }, by decide⟩ .words Ord.compare
      (Script.ofRecords [3, 1, 2, 1, 0] : Script Int64 Empty)) (Host.fresh .empty) fun result later =>
        ∃ stream, result = .ok stream ∧
          Ensures (stream.play (ε := Empty) [.call .hasNext]) later fun _ middle =>
            NothingLeft (fun _ => False) stream.store.directory .empty middle.disk := by
  have yields : Yields [3, 1, 2, 1, 0] (Script.ofRecords [3, 1, 2, 1, 0] : Script Int64 Empty) (fun _ => False)
      Disk.empty := yields_ofRecords _ _
  have asks : ∀ event ∈ [StreamEvent.call .hasNext], event.Asks := by simp [StreamEvent.Asks, StreamEvent.Harmless]
  have reading : ∀ event ∈ [StreamEvent.call .hasNext], event.Reads := by simp [StreamEvent.Reads]
  apply Ensures.intro
  intro result later ran
  obtain ⟨stream, rfl, -⟩ := (sortBy_succeeds SpillFormat.words_roundTrips Disk.sound_empty yields
    (.inr (SpillStore.accepts_words _))).of_run ran
  have holds := (sortBy_spec True SpillFormat.words_roundTrips Disk.sound_empty yields).of_run ran
  have none_left : (SorterOptions.select { SorterOptions.standard with pageSize := 2, offset := 5 }
      (Comparison.stableSort Ord.compare ([3, 1, 2, 1, 0] : List Int64))) = [] := by
    apply List.drop_eq_nil_of_le
    simp [Comparison.stableSort]
  rw [none_left] at holds
  have tidied := ((sortBy_ended_nothingLeft contained_script _ _ _ Disk.sound_empty fun _ => False.elim).of_run ran stream rfl).1
  refine ⟨stream, rfl, Ensures.intro ?_⟩
  rintro ⟨answers, used⟩ middle ran'
  obtain ⟨answer, rfl⟩ : ∃ answer, answers = [answer] := ⟨_, (congrArg (·.1.1) ran').symm⟩
  have ends := (SortedStream.play_ended holds reading).of_run ran' answer (List.mem_singleton_self _)
  exact (tidied (by rintro ⟨⟩) _ asks).of_run ran' ⟨answer, List.mem_singleton_self _, ends⟩

/-! ## A limit of zero -/

/-- Where a page was filled and nothing is skipped, the store has its directory when the stream is handed out. -/
theorem sortBy_spilled {sorter : Sorter} {format : SpillFormat α} {compare : Comparison α} {records : List α}
    {owned : Nat → Prop} (sound : host.disk.Sound) (yields : Yields records source owned host.disk)
    (full : sorter.options.pageSize ≤ records.length) (nothing : sorter.options.offset = 0) :
    Ensures (sorter.sortBy (ε := ε) format compare source) host fun result later => ∀ stream, result = .ok stream →
      ∃ directory, stream.store.directory = some directory ∧ later.disk.hasDirectory directory := by
  refine sortBy_rule (fun _ filling later => ∃ directory, filling.store.directory = some directory ∧
    later.disk.hasDirectory directory) (Filling.run_spilled yields sound sorter.pageSize_pos full) ?_
  rintro outcome filling start start' ⟨directory, mine, there⟩ same
  rw [nothing]
  rintro -
  rw [← same] at there
  exact ⟨directory, by cases outcome <;> exact mine, there⟩

/-- Where no page was filled the stream has no directory. -/
theorem sortBy_unspilled (contained : Contained (ε := ε) (α := α) own) {left : σ → Nat}
    (bounded : Bounds (ε := ε) (α := α) left) {sorter : Sorter} {format : SpillFormat α} {compare : Comparison α}
    (few : left source < sorter.options.pageSize) (sound : host.disk.Sound) :
    Ensures (sorter.sortBy (ε := ε) format compare source) host fun result _ => ∀ stream, result = .ok stream →
      stream.store.directory = none := by
  refine sortBy_rule (fun _ filling later => filling.store.directory = none ∧ later.disk.Sound)
    ((Filling.run_unspilled contained bounded few sound).mono fun _ _ ready _ _ => ready) ?_
  rintro outcome filling start start' ⟨unspilled, sound'⟩ same
  rw [← same] at sound'
  have unspilled' : (openStream compare filling outcome).store.directory = none := by cases outcome <;> exact unspilled
  have skipped : Ensures (SortedStream.skip (ε := ε) sorter.options.offset (openStream compare filling outcome)) start'
      fun result _ => result.2.store.directory = none := by
    refine SortedStream.skip_rule (fun stream later => stream.store.directory = none ∧ later.disk.Sound) ?_
      (fun _ _ kept => kept.1) ⟨unspilled', sound'⟩
    rintro stream middle ⟨unspilled, sound⟩
    apply (SortedStream.advance_minds (fun _ => unspilled) sound).mono
    rintro ⟨answer, stream'⟩ last minds
    cases answer with
    | error error => exact minds.unspilled unspilled
    | ok given =>
      cases given with
      | none => exact minds.unspilled unspilled
      | some record => exact ⟨minds.unspilled unspilled, minds.minds.sound⟩
  exact skipped.mono fun _ _ unspilled _ => unspilled

/-- Three numbers in pages of two and a limit of zero: the stream says that there are no more records, and the
directory of its runs is still there. -/
theorem sortBy_limitZero_leaves :
    Ensures (sortBy ⟨{ SorterOptions.standard with pageSize := 2, limit := some 0 }, by decide⟩ .words Ord.compare
      (Script.ofRecords [3, 1, 2] : Script Int64 Empty)) (Host.fresh .empty) fun result later =>
        ∃ stream directory, result = .ok stream ∧ stream.store.directory = some directory ∧
          Ensures (stream.play (ε := Empty) [.call .next]) later fun used middle =>
            (∃ answer ∈ used.1, answer.saysEnd) ∧ middle.disk.hasDirectory directory := by
  have yields : Yields [3, 1, 2] (Script.ofRecords [3, 1, 2] : Script Int64 Empty) (fun _ => False) Disk.empty :=
    yields_ofRecords _ _
  apply Ensures.intro
  intro result later ran
  obtain ⟨stream, rfl, -⟩ := (sortBy_succeeds SpillFormat.words_roundTrips Disk.sound_empty yields
    (.inr (SpillStore.accepts_words _))).of_run ran
  obtain ⟨directory, mine, there⟩ :=
    (sortBy_spilled Disk.sound_empty yields (by decide) rfl).of_run ran stream rfl
  obtain ⟨opened, nothing, limited⟩ := (sortBy_fresh _ _ _ _ _).of_run ran stream rfl
  refine ⟨stream, directory, rfl, mine, Ensures.intro ?_⟩
  rintro ⟨answers, used⟩ middle ran'
  obtain ⟨answer, rfl⟩ : ∃ answer, answers = [answer] := ⟨_, (congrArg (·.1.1) ran').symm⟩
  have asks : StreamCall.close ∉ [StreamCall.next] := by decide
  obtain ⟨⟨-, rfl⟩, ends⟩ := (SortedStream.play_of_spent (.inr ⟨opened, limited⟩) nothing asks later).of_run ran'
  exact ⟨⟨answer, List.mem_singleton_self _, ends answer (List.mem_singleton_self _)⟩, there⟩

end Sorter

end SpillSort
