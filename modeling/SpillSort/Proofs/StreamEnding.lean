import SpillSort.Proofs.EndCleanup

/-! # What a stream answers in the end

Whatever is asked of a stream, and in whatever order: once a run could not be read, the stream has nothing more
and says so until it is closed, and once it has been closed it refuses everything.
-/

namespace SpillSort

variable {σ α ε : Type}

namespace StreamAnswer

/-- A run could not be read. -/
def isReadFault (answer : StreamAnswer α ε) : Bool :=
  match answer.error? with
  | some (.spillRead _) => true
  | _ => false

theorem isReadFault_iff {answer : StreamAnswer α ε} :
    answer.isReadFault ↔ ∃ error, answer.error? = some (.spillRead error) := by
  unfold isReadFault
  split
  · next error told => exact ⟨fun _ => ⟨error, told⟩, fun _ => rfl⟩
  · next other =>
    refine ⟨nofun, ?_⟩
    rintro ⟨error, told⟩
    exact absurd told (other error)

theorem not_isReadFault_of_saysEnd {answer : StreamAnswer α ε} (ends : answer.saysEnd) : ¬ answer.isReadFault := by
  match answer with
  | .more (.ok false) => exact nofun
  | .next (.ok none) => exact nofun
  | .item none => exact nofun

end StreamAnswer

/-- The answer to a call on a closed stream. -/
def StreamCall.refusal : StreamCall → StreamAnswer α ε
  | .hasNext => .more (.error .usedAfterClose)
  | .next => .next (.error .usedAfterClose)
  | .iterate => .item (some (.error .usedAfterClose))
  | .close => .closed (.error .usedAfterClose)

theorem StreamCall.error?_refusal (call : StreamCall) :
    (call.refusal : StreamAnswer α ε).error? = some .usedAfterClose := by cases call <;> rfl

namespace SortedStream

variable {stream : SortedStream σ α} {host : Host}

/-! ## Single requests -/

/-- A phase that gave no record ends the stream. -/
theorem settle_exhausted (stream : SortedStream σ α) (answer : Option (Except SpillError α)) (host : Host) :
    Ensures (stream.settle (ε := ε) answer) host fun result _ =>
      (∃ record, result.1 = .ok (some record)) ∨ result.2.phase = .exhausted := by
  have finished (start : Host) : Ensures stream.finish start fun ended _ => ended.phase = .exhausted :=
    (stream.finish_run start).1
  match answer with
  | none =>
    simp only [settle]
    rw [Ensures.bind_iff]
    exact (finished host).mono fun _ _ ended => .inr ended
  | some (.error error) =>
    simp only [settle]
    rw [Ensures.bind_iff]
    refine Ensures.report fun start _ => ?_
    rw [Ensures.bind_iff]
    exact (finished start).mono fun _ _ ended => .inr ended
  | some (.ok record) =>
    simp only [settle]
    split
    · rw [Ensures.bind_iff]
      exact Ensures.intro fun _ _ _ => .inl ⟨record, rfl⟩
    · exact .inl ⟨record, rfl⟩

/-- A request that gives no record finds the stream closed, its limit used up, or ends it. -/
theorem advance_outcome (stream : SortedStream σ α) (host : Host) :
    Ensures (stream.advance (ε := ε)) host fun result _ =>
      (∃ record, result.1 = .ok (some record)) ∨ result.1 = .error .usedAfterClose ∨
        (result.1 = .ok none ∧ result.2.Spent) ∨ result.2.phase = .exhausted := by
  simp only [advance]
  split
  · exact .inr (.inl rfl)
  · next opened =>
    split
    · next limited => exact .inr (.inr (.inl ⟨rfl, .inr ⟨opened, limited⟩⟩))
    · rw [Ensures.bind_iff]
      apply Ensures.intro
      rintro ⟨answer, phase⟩ later -
      exact (settle_exhausted { stream with phase } answer later).mono fun _ _ outcome =>
        outcome.imp_right fun ended => .inr (.inr ended)

/-- A stream that says that it has no more records has none. -/
theorem advance_spent (stream : SortedStream σ α) (host : Host) :
    Ensures (stream.advance (ε := ε)) host fun result _ => result.1 = .ok none → result.2.Spent := by
  apply (stream.advance_outcome host).mono
  rintro ⟨answer, stream'⟩ later outcome rfl
  rcases outcome with ⟨record, given⟩ | refused | ⟨-, spent⟩ | ended
  · cases given
  · cases refused
  · exact spent
  · exact .inl ended

/-- A run that cannot be read ends the stream. -/
theorem advance_failed (stream : SortedStream σ α) (host : Host) :
    Ensures (stream.advance (ε := ε)) host fun result _ => ∀ error, result.1 = .error (.spillRead error) →
      result.2.phase = .exhausted := by
  apply (stream.advance_outcome host).mono
  rintro ⟨answer, stream'⟩ later outcome error rfl
  rcases outcome with ⟨record, given⟩ | refused | ⟨ended, -⟩ | exhausted
  · cases given
  · cases refused
  · cases ended
  · exact exhausted

theorem advance_peeked (stream : SortedStream σ α) (host : Host) :
    Ensures (stream.advance (ε := ε)) host fun result _ => result.2.peeked = stream.peeked :=
  (stream.bound_advance host).2.1

/-! ## Closed streams -/

variable [RecordSource σ α ε]

theorem play_cons_iff {call : StreamCall} {events : List StreamEvent}
    {post : List (StreamAnswer α ε) × SortedStream σ α → Host → Prop} :
    Ensures (stream.play (.call call :: events)) host post ↔
      Ensures (stream.perform call) host fun result later =>
        Ensures (result.2.play events) later fun used last => post (result.1 :: used.1, used.2) last := Iff.rfl

/-- A closed stream refuses everything. -/
theorem perform_of_closed (closed : stream.phase = .closed) (nothing : stream.peeked = none) (call : StreamCall)
    (host : Host) :
    Ensures (stream.perform (ε := ε) call) host fun result later => result = (call.refusal, stream) ∧ later = host := by
  cases call with
  | hasNext =>
    simp only [perform, hasNext, nothing, advance, closed]
    exact ⟨rfl, rfl⟩
  | next =>
    simp only [perform, next, nothing, advance, closed]
    exact ⟨rfl, rfl⟩
  | iterate =>
    simp only [perform, next, nothing, advance, closed]
    exact ⟨rfl, rfl⟩
  | close =>
    simp only [perform, close, closed]
    exact ⟨rfl, rfl⟩

theorem play_of_closed (closed : stream.phase = .closed) (nothing : stream.peeked = none) (calls : List StreamCall)
    (host : Host) :
    Ensures (stream.play (ε := ε) (calls.map .call)) host fun used _ =>
      ∀ answer ∈ used.1, answer.error? = some .usedAfterClose := by
  induction calls with
  | nil => exact List.forall_mem_nil _
  | cons call calls ih =>
    rw [List.map_cons, play_cons_iff]
    apply (perform_of_closed closed nothing call host).mono
    rintro result later ⟨rfl, rfl⟩
    exact ih.mono fun _ _ refused => List.forall_mem_cons.mpr ⟨call.error?_refusal, refused⟩

/-- Closing tells of the source and of removing, never of reading. -/
theorem close_opened (opened : stream.phase ≠ .closed) (host : Host) :
    Ensures (stream.close (ε := ε)) host fun result _ =>
      (result.2.phase = .closed ∧ result.2.peeked = none) ∧ ∀ error, result.1 ≠ .error (.spillRead error) := by
  simp only [close]
  rw [Ensures.bind_iff]
  apply Ensures.intro
  rintro ⟨disposed, store⟩ middle -
  rw [Ensures.bind_iff]
  apply Ensures.intro
  rintro ⟨closed, source⟩ later -
  cases closed with
  | error error => exact ⟨⟨rfl, rfl⟩, by rintro _ ⟨⟩⟩
  | ok =>
    cases disposed with
    | error error => exact ⟨⟨rfl, rfl⟩, by rintro _ ⟨⟩⟩
    | ok => exact ⟨⟨rfl, rfl⟩, by rintro _ ⟨⟩⟩

/-- A closed stream has nothing that was looked at. -/
def Sealed (stream : SortedStream σ α) : Prop := stream.phase = .closed → stream.peeked = none

theorem perform_onward {call : StreamCall} (asks : call ≠ .close) (host : Host) :
    Ensures (stream.perform (ε := ε) call) host fun result _ => Onward stream result.2 := by
  cases call with
  | hasNext => exact (stream.hasNext_onward host).mono fun _ _ onward => onward
  | next => exact (stream.next_onward host).mono fun _ _ onward => onward
  | iterate => exact (stream.next_onward host).mono fun _ _ onward => onward
  | close => exact absurd rfl asks

theorem perform_isClosing (stream : SortedStream σ α) (call : StreamCall) (host : Host) :
    Ensures (stream.perform (ε := ε) call) host fun result _ => result.1.isClosing → call = .close := by
  simp only [perform]
  cases call with
  | hasNext =>
    rw [Ensures.bind_iff]
    exact Ensures.intro fun _ _ _ closing => by cases closing
  | next =>
    rw [Ensures.bind_iff]
    exact Ensures.intro fun _ _ _ closing => by cases closing
  | iterate =>
    rw [Ensures.bind_iff]
    apply Ensures.intro
    rintro ⟨answer, stream'⟩ later -
    rcases answer with error | _ | record <;> rintro ⟨⟩
  | close =>
    rw [Ensures.bind_iff]
    exact Ensures.intro fun _ _ _ _ => rfl

theorem perform_sealed (closing : stream.Sealed) (call : StreamCall) (host : Host) :
    Ensures (stream.perform (ε := ε) call) host fun result _ =>
      result.2.Sealed ∧ (result.1.isClosing → result.2.phase = .closed) := by
  by_cases closed : stream.phase = .closed
  · apply (perform_of_closed closed (closing closed) call host).mono
    rintro result later ⟨rfl, -⟩
    exact ⟨closing, fun _ => closed⟩
  · by_cases asks : call = .close
    · subst asks
      simp only [perform]
      rw [Ensures.bind_iff]
      apply (close_opened closed host).mono
      rintro result later ⟨⟨closed', nothing⟩, -⟩
      exact ⟨fun _ => nothing, fun _ => closed'⟩
    · apply ((perform_onward asks host).and (stream.perform_isClosing call host)).mono
      rintro result later ⟨onward, answered⟩
      exact ⟨fun ended => absurd (onward.closed_iff.mp ended) closed, fun closing => absurd (answered closing) asks⟩

/-- After a request to close everything is refused. -/
theorem play_refused (closing : stream.Sealed) (calls : List StreamCall) (host : Host) :
    Ensures (stream.play (ε := ε) (calls.map .call)) host fun used _ => ∀ closed after,
      closed :: after <:+ used.1 → closed.isClosing → ∀ answer ∈ after, answer.error? = some .usedAfterClose := by
  induction calls generalizing stream host with
  | nil =>
    intro closed after part
    cases List.suffix_nil.mp part
  | cons call calls ih =>
    rw [List.map_cons, play_cons_iff]
    apply (perform_sealed closing call host).mono
    rintro ⟨answer, stream'⟩ later ⟨closing', ends⟩
    apply Ensures.intro
    rintro ⟨answers, stream''⟩ last ran closed after part isClosing
    rcases List.suffix_cons_iff.mp part with whole | part'
    · obtain ⟨rfl, rfl⟩ := List.cons.inj whole
      exact (play_of_closed (ends isClosing) (closing' (ends isClosing)) calls later).of_run ran
    · exact (ih closing' later).of_run ran closed after part' isClosing

/-! ## Faults -/

omit [RecordSource σ α ε] in
theorem next_readFault (stream : SortedStream σ α) (host : Host) :
    Ensures (stream.next (ε := ε)) host fun result _ => ∀ error, result.1 = .error (.spillRead error) →
      result.2.phase = .exhausted ∧ result.2.peeked = none := by
  simp only [next]
  split
  · rintro fault ⟨⟩
  · next nothing =>
    apply ((stream.advance_failed host).and (stream.advance_peeked host)).mono
    rintro result later ⟨failed, peeked_eq⟩ error told
    exact ⟨failed error told, peeked_eq.trans nothing⟩

omit [RecordSource σ α ε] in
theorem hasNext_readFault (stream : SortedStream σ α) (host : Host) :
    Ensures (stream.hasNext (ε := ε)) host fun result _ => ∀ error, result.1 = .error (.spillRead error) →
      result.2.phase = .exhausted ∧ result.2.peeked = none := by
  simp only [hasNext]
  split
  · rintro fault ⟨⟩
  · next nothing =>
    rw [Ensures.bind_iff]
    apply ((stream.advance_failed host).and (stream.advance_peeked host)).mono
    rintro ⟨answer, stream'⟩ later ⟨failed, peeked_eq⟩
    cases answer with
    | error error =>
      rintro fault ⟨⟩
      exact ⟨failed fault rfl, peeked_eq.trans nothing⟩
    | ok peeked => rintro fault ⟨⟩

theorem close_readFault (stream : SortedStream σ α) (host : Host) :
    Ensures (stream.close (ε := ε)) host fun result _ => ∀ error, result.1 ≠ .error (.spillRead error) := by
  by_cases closed : stream.phase = .closed
  · simp only [close, closed]
    rintro fault ⟨⟩
  · exact (close_opened closed host).mono fun _ _ outcome => outcome.2

theorem perform_readFault (stream : SortedStream σ α) (call : StreamCall) (host : Host) :
    Ensures (stream.perform (ε := ε) call) host fun result _ => ∀ error, result.1.error? = some (.spillRead error) →
      result.2.phase = .exhausted ∧ result.2.peeked = none := by
  simp only [perform]
  cases call with
  | hasNext =>
    rw [Ensures.bind_iff]
    apply (stream.hasNext_readFault host).mono
    rintro ⟨answer, stream'⟩ later failed
    cases answer with
    | error error =>
      rintro fault ⟨⟩
      exact failed fault rfl
    | ok more => rintro fault ⟨⟩
  | next =>
    rw [Ensures.bind_iff]
    apply (stream.next_readFault host).mono
    rintro ⟨answer, stream'⟩ later failed
    cases answer with
    | error error =>
      rintro fault ⟨⟩
      exact failed fault rfl
    | ok record => rintro fault ⟨⟩
  | iterate =>
    rw [Ensures.bind_iff]
    apply (stream.next_readFault host).mono
    rintro ⟨answer, stream'⟩ later failed
    rcases answer with error | _ | record <;> rintro fault ⟨⟩
    exact failed fault rfl
  | close =>
    rw [Ensures.bind_iff]
    apply (stream.close_readFault host).mono
    rintro ⟨answer, stream'⟩ later told
    cases answer with
    | error error =>
      rintro fault ⟨⟩
      exact absurd rfl (told fault)
    | ok => rintro fault ⟨⟩

/-- A stream that has ended says so until it is closed, and no run is read any more. -/
theorem play_of_exhausted (ended : stream.phase = .exhausted) (nothing : stream.peeked = none)
    (calls : List StreamCall) (host : Host) :
    Ensures (stream.play (ε := ε) (calls.map .call)) host fun used _ =>
      (∀ answer ∈ used.1, ¬ answer.isReadFault) ∧
        ∀ answer ∈ used.1.takeWhile (! ·.isClosing), answer.saysEnd := by
  induction calls generalizing host with
  | nil => exact ⟨List.forall_mem_nil _, List.forall_mem_nil _⟩
  | cons call calls ih =>
    rw [List.map_cons, play_cons_iff]
    by_cases asks : call = .close
    · subst asks
      have opened : stream.phase ≠ .closed := by
        rw [ended]
        rintro ⟨⟩
      simp only [perform]
      rw [Ensures.bind_iff]
      apply (close_opened opened host).mono
      rintro ⟨answer, stream'⟩ later ⟨⟨closed, nothing'⟩, told⟩
      rw [Ensures.pure_iff]
      apply (play_of_closed closed nothing' calls later).mono
      intro used last refused
      refine ⟨List.forall_mem_cons.mpr ⟨?_, fun other present fault => ?_⟩, List.forall_mem_nil _⟩
      · intro fault
        obtain ⟨error, told'⟩ := StreamAnswer.isReadFault_iff.mp fault
        cases answer with
        | error other => exact told error (congrArg Except.error (Option.some.inj told'))
        | ok => cases told'
      · obtain ⟨error, told'⟩ := StreamAnswer.isReadFault_iff.mp fault
        cases (refused other present).symm.trans told'
    · apply (perform_of_spent (.inl ended) nothing asks host).mono
      rintro ⟨answer, stream'⟩ later ⟨⟨rfl, rfl⟩, ends⟩
      apply (ih later).mono
      rintro used last ⟨fine, others⟩
      refine ⟨List.forall_mem_cons.mpr ⟨StreamAnswer.not_isReadFault_of_saysEnd ends, fine⟩, ?_⟩
      intro other present
      rw [List.takeWhile_cons] at present
      split at present
      · rcases List.mem_cons.mp present with rfl | later
        · exact ends
        · exact others other later
      · cases present

/-- An unreadable run is told once, and then there is nothing more. -/
theorem play_failsOnce (stream : SortedStream σ α) (calls : List StreamCall) (host : Host) :
    Ensures (stream.play (ε := ε) (calls.map .call)) host fun used _ => ∀ failed after,
      failed :: after <:+ used.1 → failed.isReadFault →
        (∀ answer ∈ after, ¬ answer.isReadFault) ∧ ∀ answer ∈ after.takeWhile (! ·.isClosing), answer.saysEnd := by
  -- A failure is the first answer, after which the stream has ended, or among those after it.
  induction calls generalizing stream host with
  | nil =>
    intro failed after part
    cases List.suffix_nil.mp part
  | cons call calls ih =>
    rw [List.map_cons, play_cons_iff]
    apply (stream.perform_readFault call host).mono
    rintro ⟨answer, stream'⟩ later ends
    apply Ensures.intro
    rintro ⟨answers, stream''⟩ last ran failed after part fault
    rcases List.suffix_cons_iff.mp part with whole | part'
    · obtain ⟨rfl, rfl⟩ := List.cons.inj whole
      obtain ⟨error, told⟩ := StreamAnswer.isReadFault_iff.mp fault
      obtain ⟨ended, nothing⟩ := ends error told
      exact (play_of_exhausted ended nothing calls later).of_run ran
    · exact (ih stream' later).of_run ran failed after part' fault

end SortedStream

end SpillSort
