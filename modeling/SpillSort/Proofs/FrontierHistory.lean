import SpillSort.Proofs.MergeSteps

/-! # What the frontier holds at every moment

Inputs are watched: each keeps the answers it has given. A merger of watched inputs does what a merger of the
inputs themselves does, whatever the inputs would do if they were asked again after their end or an error. So they
are not asked again. The records an input has given were handed out, apart from the last one, which may still be its
head.

If what every input gives is in order then no head comes after what its input still has to give, nor before the
record that was handed out last.
-/

namespace SpillSort

variable {γ α ε : Type}

/-! ## Watched inputs -/

/-- The records among some answers. -/
def recordsOf (answers : List (Option (Except ε α))) : List α :=
  answers.filterMap fun
    | some (.ok record) => some record
    | _ => none

theorem recordsOf_append (answers answers' : List (Option (Except ε α))) :
    recordsOf (answers ++ answers') = recordsOf answers ++ recordsOf answers' := List.filterMap_append

/-- No answer among some is an end or an error. -/
def recordsOnly (answers : List (Option (Except ε α))) : Bool :=
  answers.all fun
    | some (.ok _) => true
    | _ => false

/-- An input with the answers it has given. -/
structure Watched (γ α ε : Type) where
  input : γ
  answers : List (Option (Except ε α))

namespace Watched

/-- An input that was never asked. -/
def start (input : γ) : Watched γ α ε := ⟨input, []⟩

/-- The records that an input has given. -/
def records (watched : Watched γ α ε) : List α := recordsOf watched.answers

/-- An input that has told neither its end nor an error. -/
def isOpen (watched : Watched γ α ε) : Bool := recordsOnly watched.answers

/-- The input after one more answer. -/
def told (watched : Watched γ α ε) (answer : Option (Except ε α)) (input : γ) : Watched γ α ε :=
  ⟨input, watched.answers ++ [answer]⟩

/-- Pulling an input and keeping its answer. An input that has told its end or an error does anything else in place of
that. -/
def pull (pull : γ → HostM (Option (Except ε α) × γ))
    (again : Watched γ α ε → HostM (Option (Except ε α) × Watched γ α ε)) (watched : Watched γ α ε) :
    HostM (Option (Except ε α) × Watched γ α ε) :=
  if watched.isOpen then do
    let (answer, input) ← pull watched.input
    return (answer, watched.told answer input)
  else again watched

theorem records_told (watched : Watched γ α ε) (answer : Option (Except ε α)) (input : γ) :
    (watched.told answer input).records = watched.records ++ recordsOf [answer] := recordsOf_append _ _

theorem isOpen_told {watched : Watched γ α ε} (fit : watched.isOpen) (record : α) (input : γ) :
    (watched.told (some (.ok record)) input).isOpen := by
  unfold isOpen recordsOnly told at *
  rw [List.all_append, fit]
  rfl

end Watched

/-! ## Heads and what was given before them -/

theorem held_append (heads heads' : List (Head α)) (index : Nat) :
    held (heads ++ heads') index = held heads index ++ held heads' index := by
  unfold held
  rw [List.filter_append, List.map_append]

theorem mem_inputs_iff_held {heads : List (Head α)} (distinct : (heads.map Head.input).Nodup) {index : Nat} :
    index ∈ heads.map Head.input ↔ 0 < (held heads index).length := by
  constructor
  · intro present
    obtain ⟨head, member, rfl⟩ := List.mem_map.mp present
    rw [held_of_mem distinct member]
    exact Nat.one_pos
  · intro some
    by_contra absent
    rw [held_eq_nil absent] at some
    exact Nat.lt_irrefl 0 some

namespace Merger

/-- The merger of the inputs that are watched. -/
def bare (merger : Merger (Watched γ α ε) α ε) : Merger γ α ε :=
  { merger with inputs := merger.inputs.map Watched.input }

/-- The records that an input has given are those handed out and those on the frontier. Inputs that are due, or have a
head, are open, and no more than one of the two. -/
structure Accounts (due : Nat → Prop) (merger : Merger (Watched γ α ε) α ε) (given : List (Head α)) : Prop where
  distinct : (merger.heads.map Head.input).Nodup
  known : ∀ head ∈ merger.heads, head.input < merger.inputs.length
  records_eq : ∀ index watched, merger.inputs[index]? = some watched →
    held given index ++ held merger.heads index = watched.records
  fit : ∀ index watched, merger.inputs[index]? = some watched →
    due index ∨ index ∈ merger.heads.map Head.input → watched.isOpen
  vacant : ∀ index, due index → index ∉ merger.heads.map Head.input
  /-- An end or an error is the last answer of an input. -/
  once : ∀ watched ∈ merger.inputs, recordsOnly watched.answers.dropLast

namespace Accounts

variable {due due' : Nat → Prop} {merger : Merger (Watched γ α ε) α ε} {given : List (Head α)} {index : Nat}
  {watched : Watched γ α ε}

theorem mono (accounts : merger.Accounts due given) (fewer : ∀ index, due' index → due index) :
    merger.Accounts due' given :=
  { accounts with
    fit := fun index watched found asked => accounts.fit index watched found (asked.imp_left (fewer index))
    vacant := fun index asked => accounts.vacant index (fewer index asked) }

/-- Only inputs and heads are accounted for. -/
theorem congr {merger' : Merger (Watched γ α ε) α ε} (accounts : merger.Accounts due given)
    (inputs_eq : merger'.inputs = merger.inputs) (heads_eq : merger'.heads = merger.heads) :
    merger'.Accounts due given := by
  obtain ⟨inputs, heads, pending, seeded, failed⟩ := merger'
  obtain rfl : inputs = merger.inputs := inputs_eq
  obtain rfl : heads = merger.heads := heads_eq
  exact ⟨accounts.distinct, accounts.known, accounts.records_eq, accounts.fit, accounts.vacant, accounts.once⟩

/-- An input that is due has told neither its end nor an error before. -/
theorem once_set (accounts : merger.Accounts due given) (found : merger.inputs[index]? = some watched)
    (asked : due index) (answer : Option (Except ε α)) (input : γ) :
    ∀ other ∈ merger.inputs.set index (watched.told answer input), recordsOnly other.answers.dropLast := by
  intro other present
  rcases List.mem_or_eq_of_mem_set present with old | rfl
  · exact accounts.once other old
  · rw [Watched.told, List.dropLast_concat]
    exact accounts.fit index watched found (.inl asked)

/-- An input that is due told its end or an error. -/
theorem stopped (accounts : merger.Accounts due given) (found : merger.inputs[index]? = some watched)
    (asked : due index) {answer : Option (Except ε α)} (none_told : recordsOf [answer] = []) (input : γ) :
    { merger with inputs := merger.inputs.set index (watched.told answer input) }.Accounts
      (fun other => due other ∧ other ≠ index) given := by
  have bound := (List.getElem?_eq_some_iff.mp found).1
  refine ⟨accounts.distinct, ?_, ?_, ?_, fun other asked' => accounts.vacant other asked'.1,
    accounts.once_set found asked answer input⟩
  · simpa only [List.length_set] using accounts.known
  · intro other watched' found'
    by_cases same : other = index
    · subst same
      rw [List.getElem?_set_self bound] at found'
      cases found'
      rw [watched.records_told, none_told, List.append_nil]
      exact accounts.records_eq other watched found
    · rw [List.getElem?_set_ne (Ne.symm same)] at found'
      exact accounts.records_eq other watched' found'
  · intro other watched' found' reason
    by_cases same : other = index
    · subst same
      exact absurd (reason.resolve_left fun asked' => asked'.2 rfl) (accounts.vacant other asked)
    · rw [List.getElem?_set_ne (Ne.symm same)] at found'
      exact accounts.fit other watched' found' (reason.imp_left And.left)

/-- An input that is due gave a record, which becomes its head. -/
theorem advanced (accounts : merger.Accounts due given) (found : merger.inputs[index]? = some watched)
    (asked : due index) (compare : Comparison α) (record : α) (input : γ) :
    { merger with
        inputs := merger.inputs.set index (watched.told (some (.ok record)) input)
        heads := Head.insert compare ⟨record, index⟩ merger.heads }.Accounts
      (fun other => due other ∧ other ≠ index) given := by
  have bound := (List.getElem?_eq_some_iff.mp found).1
  have absent := accounts.vacant index asked
  have perm := (Head.perm_insert compare ⟨record, index⟩ merger.heads).map Head.input
  refine ⟨perm.nodup_iff.mpr (List.nodup_cons.mpr ⟨absent, accounts.distinct⟩), ?_, ?_, ?_, ?_,
    accounts.once_set found asked _ input⟩
  · intro head present
    rw [List.length_set]
    rcases List.mem_cons.mp ((Head.perm_insert compare _ _).mem_iff.mp present) with rfl | old
    · exact bound
    · exact accounts.known head old
  · intro other watched' found'
    dsimp only at found' ⊢
    by_cases same : other = index
    · subst same
      rw [List.getElem?_set_self bound] at found'
      cases found'
      rw [held_insert_self absent, watched.records_told, ← accounts.records_eq other watched found, held_eq_nil absent,
        List.append_nil]
      rfl
    · rw [List.getElem?_set_ne (Ne.symm same)] at found'
      rw [held_insert_of_ne (Ne.symm same)]
      exact accounts.records_eq other watched' found'
  · intro other watched' found' reason
    dsimp only at found' reason
    by_cases same : other = index
    · subst same
      rw [List.getElem?_set_self bound] at found'
      cases found'
      exact Watched.isOpen_told (accounts.fit other watched found (.inl asked)) record input
    · rw [List.getElem?_set_ne (Ne.symm same)] at found'
      refine accounts.fit other watched' found' (reason.imp And.left fun fronted => ?_)
      exact (List.mem_cons.mp (perm.mem_iff.mp fronted)).resolve_left same
  · rintro other ⟨asked', differ⟩ fronted
    exact (List.mem_cons.mp (perm.mem_iff.mp fronted)).elim differ (accounts.vacant other asked')

/-- Handing out a head leaves its input due. -/
theorem handed (accounts : merger.Accounts (fun _ => False) given) {head : Head α} {heads : List (Head α)}
    (found : merger.heads = head :: heads) :
    { merger with heads }.Accounts (· = head.input) (given ++ [head]) := by
  obtain ⟨distinct, known, records_eq, fit, -, once⟩ := accounts
  rw [found] at distinct known records_eq fit
  obtain ⟨absent, distinct'⟩ := List.nodup_cons.mp distinct
  refine ⟨distinct', fun other present => known other (List.mem_cons_of_mem _ present), ?_, ?_, ?_, once⟩
  · intro index watched found'
    rw [← records_eq index watched found', held_append, List.append_assoc, ← held_append, List.singleton_append]
  · intro index watched found' reason
    exact fit index watched found' (.inr (List.mem_cons.mpr reason))
  · rintro index rfl
    exact absent

end Accounts

/-! ## Steps -/

/-- What an answer of the input of a number makes of a merger. -/
def settle (compare : Comparison α) (merger : Merger γ α ε) (index : Nat) :
    Option (Except ε α) → Option ε × Merger γ α ε
  | none => (none, merger)
  | some (.error error) => (some error, merger)
  | some (.ok record) => (none, { merger with heads := Head.insert compare ⟨record, index⟩ merger.heads })

theorem refill_of_run {compare : Comparison α} {pull : γ → HostM (Option (Except ε α) × γ)} {merger : Merger γ α ε}
    {index : Nat} {input input' : γ} {answer : Option (Except ε α)} {host later : Host}
    (found : merger.inputs[index]? = some input) (ran : (pull input).run host = ((answer, input'), later)) :
    (merger.refill compare pull index).run host =
      ({ merger with inputs := merger.inputs.set index input' }.settle compare index answer, later) := by
  unfold refill
  simp only [found, StateT.run_bind, ran]
  match answer with
  | none => rfl
  | some (.error error) => rfl
  | some (.ok record) => rfl

/-- A step of a merger of plain inputs does what was done with watched ones. -/
def Mirrored {β : Type} (step : HostM (β × Merger γ α ε)) (host : Host) (result : β × Merger (Watched γ α ε) α ε)
    (later : Host) : Prop :=
  step.run host = ((result.1, result.2.bare), later)

section Steps

variable {due : Nat → Prop} {merger : Merger (Watched γ α ε) α ε} {given : List (Head α)} {index : Nat}
  {compare : Comparison α} {pull : γ → HostM (Option (Except ε α) × γ)}
  {again : Watched γ α ε → HostM (Option (Except ε α) × Watched γ α ε)}

/-- Asking the input of a number changes this input and adds at most a head of it. -/
structure Asked (index : Nat) (merger merger' : Merger (Watched γ α ε) α ε) : Prop where
  fields : merger' = { merger with inputs := merger'.inputs, heads := merger'.heads }
  length_eq : merger'.inputs.length = merger.inputs.length
  heads : ∀ head ∈ merger'.heads, head ∈ merger.heads ∨ head.input = index

theorem Accounts.refill (accounts : merger.Accounts due given) (asked : due index) (host : Host) :
    Ensures (merger.refill compare (Watched.pull pull again) index) host fun result later =>
      result.2.Accounts (fun other => due other ∧ other ≠ index) given ∧ merger.Asked index result.2 ∧
        Mirrored (merger.bare.refill compare pull index) host result later := by
  cases found : merger.inputs[index]? with
  | none =>
    have found' : merger.bare.inputs[index]? = none := by rw [bare, List.getElem?_map, found]; rfl
    unfold Mirrored Merger.refill
    simp only [found, found']
    exact ⟨accounts.mono fun _ => And.left, ⟨rfl, rfl, fun _ => .inl⟩, rfl⟩
  | some watched =>
    have found' : merger.bare.inputs[index]? = some watched.input := by rw [bare, List.getElem?_map, found]; rfl
    obtain ⟨⟨⟨answer, input⟩, later⟩, ran⟩ : ∃ result, (pull watched.input).run host = result := ⟨_, rfl⟩
    have ran' : (Watched.pull pull again watched).run host = ((answer, watched.told answer input), later) := by
      simp only [Watched.pull, accounts.fit index watched found (.inl asked), if_true, StateT.run_bind, ran]
      rfl
    have length_eq : (merger.inputs.set index (watched.told answer input)).length = merger.inputs.length :=
      List.length_set
    have bare_eq : (merger.inputs.set index (watched.told answer input)).map Watched.input =
        (merger.inputs.map Watched.input).set index input := List.map_set
    rw [Ensures.run_iff (refill_of_run found ran'), Mirrored, refill_of_run found' ran]
    simp only [bare, ← bare_eq]
    match answer with
    | none => exact ⟨accounts.stopped found asked rfl input, ⟨rfl, length_eq, fun _ => .inl⟩, rfl⟩
    | some (.error error) => exact ⟨accounts.stopped found asked rfl input, ⟨rfl, length_eq, fun _ => .inl⟩, rfl⟩
    | some (.ok record) =>
      refine ⟨accounts.advanced found asked compare record input, ⟨rfl, length_eq, fun head present => ?_⟩, rfl⟩
      exact ((List.mem_cons.mp ((Head.perm_insert compare _ _).mem_iff.mp present)).imp_left (congrArg Head.input)).symm

theorem Accounts.refillAll {indices : List Nat} (accounts : merger.Accounts due given)
    (asked : ∀ index ∈ indices, due index) (distinct : indices.Nodup) (host : Host) :
    Ensures (merger.refillAll compare (Watched.pull pull again) indices) host fun result later =>
      (result.1 = none → result.2.Accounts (fun other => due other ∧ other ∉ indices) given) ∧
        result.2 = { merger with inputs := result.2.inputs, heads := result.2.heads } ∧
        result.2.inputs.length = merger.inputs.length ∧
        Mirrored (merger.bare.refillAll compare pull indices) host result later := by
  induction indices generalizing due merger host with
  | nil => exact ⟨fun _ => accounts.mono fun _ => And.left, rfl, rfl, rfl⟩
  | cons index indices ih =>
    obtain ⟨first, rest⟩ := List.forall_mem_cons.mp asked
    obtain ⟨absent, distinct'⟩ := List.nodup_cons.mp distinct
    simp only [Merger.refillAll]
    rw [Ensures.bind_iff]
    apply (accounts.refill first host).mono
    rintro ⟨error?, middle⟩ later ⟨accounts', changed, mirrored⟩
    simp only [Mirrored, StateT.run_bind] at mirrored ⊢
    rw [mirrored]
    cases error? with
    | some error => exact ⟨fun quiet => absurd quiet (Option.some_ne_none error), changed.fields, changed.length_eq, rfl⟩
    | none =>
      have asked' : ∀ other ∈ indices, due other ∧ other ≠ index :=
        fun other present => ⟨rest other present, fun same => absent (same ▸ present)⟩
      apply (ih accounts' asked' distinct' later).mono
      rintro result last ⟨settled, fields, length_eq, mirrored'⟩
      refine ⟨fun quiet => (settled quiet).mono ?_, ?_, length_eq.trans changed.length_eq, mirrored'⟩
      · rintro other ⟨asked', outside⟩
        obtain ⟨differ, outside'⟩ := not_or.mp (mt List.mem_cons.mpr outside)
        exact ⟨⟨asked', differ⟩, outside'⟩
      · rw [fields, changed.fields]

/-- Handing out the least head gives its record and asks its input for another. -/
theorem Accounts.takeHead (accounts : merger.Accounts (fun _ => False) given) (host : Host) :
    Ensures (merger.takeHead compare (Watched.pull pull again)) host fun result later =>
      result.1 = merger.heads.head?.map (fun head => .ok head.record) ∧
        result.2.Accounts (fun _ => False) (given ++ merger.heads.head?.toList) ∧
        result.2 = { merger with
          inputs := result.2.inputs, heads := result.2.heads, pending := result.2.pending } ∧
        result.2.inputs.length = merger.inputs.length ∧
        (∀ head ∈ result.2.heads, head ∈ merger.heads.tail ∨ merger.heads.head?.map Head.input = some head.input) ∧
        Mirrored (merger.bare.takeHead compare pull) host result later := by
  have same : merger.bare.heads = merger.heads := rfl
  cases found : merger.heads with
  | nil =>
    simp only [Merger.takeHead, Mirrored, same, found]
    rw [Ensures.pure_iff]
    refine ⟨rfl, ?_, rfl, rfl, fun head present => ?_, rfl⟩
    · rw [List.head?_nil, Option.toList_none, List.append_nil]
      exact accounts
    · rw [found] at present
      cases present
  | cons head heads =>
    simp only [Merger.takeHead, Mirrored, same, found]
    rw [Ensures.bind_iff]
    apply ((accounts.handed found).refill rfl host).mono
    rintro ⟨fault, after⟩ later ⟨accounts', changed, mirrored⟩
    rw [Ensures.pure_iff]
    refine ⟨rfl, ?_, ?_, changed.length_eq, ?_, ?_⟩
    · exact (accounts'.mono fun _ => False.elim).congr rfl rfl
    · rw [changed.fields]
    · exact fun other present => (changed.heads other present).imp_right fun same => congrArg some same.symm
    · exact run_bind_of_run mirrored

/-! ## Order -/

/-- No head comes before the record that was handed out last, if what the inputs gave is in order. -/
def Follows (compare : Comparison α) (merger : Merger (Watched γ α ε) α ε) (given : List (Head α)) : Prop :=
  (∀ watched ∈ merger.inputs, compare.Ordered watched.records) →
    ∀ last ∈ given.getLast?, ∀ head ∈ merger.heads, compare.le last.record head.record

theorem follows_nil (compare : Comparison α) (merger : Merger (Watched γ α ε) α ε) : merger.Follows compare [] :=
  fun _ => nofun

/-- A record on the frontier is the last that its input has given. -/
theorem Accounts.records_of_mem (accounts : merger.Accounts due given) {head : Head α} (present : head ∈ merger.heads) :
    ∃ watched, merger.inputs[head.input]? = some watched ∧
      watched.records = held given head.input ++ [head.record] := by
  have found := List.getElem?_eq_getElem (accounts.known head present)
  refine ⟨_, found, ?_⟩
  rw [← accounts.records_eq head.input _ found, held_of_mem accounts.distinct present]

/-- After the least head comes nothing less: neither an older head, nor a new one of the same input. -/
theorem Accounts.follows [Std.TransCmp compare] {head : Head α} {heads : List (Head α)}
    (accounts : merger.Accounts due (given ++ [head])) (least : ∀ other ∈ heads, head.before compare other)
    (changed : ∀ other ∈ merger.heads, other ∈ heads ∨ other.input = head.input) :
    merger.Follows compare (given ++ [head]) := by
  intro ordered last last_eq other present
  obtain rfl : head = last := by simpa using last_eq
  rcases changed other present with old | same
  · exact Head.le_of_before (least other old)
  · obtain ⟨watched, found, records_eq⟩ := accounts.records_of_mem present
    have rising := ordered watched (List.mem_of_getElem? found)
    rw [records_eq, same, held_append, held_cons_self] at rising
    unfold Comparison.Ordered at rising
    rw [List.append_assoc, List.pairwise_append] at rising
    exact List.rel_of_pairwise_cons rising.2.1 (by simp)

/-! ## Runs -/

/-- A merger of so many watched inputs after some answers. The records handed out are given with their inputs. -/
structure Reached (compare : Comparison α) (width : Nat) (answers : List (Option (Except ε α)))
    (merger : Merger (Watched γ α ε) α ε) (given : List (Head α)) : Prop where
  given_eq : given.map Head.record = recordsOf answers
  accounts : merger.Accounts (fun _ => merger.seeded = false) given
  width_eq : merger.inputs.length = if merger.failed then 0 else width
  seeded : answers ≠ [] → merger.seeded = true
  quiet : merger.seeded = false → merger.failed = false ∧ merger.pending = none
  inOrder : Std.TransCmp compare → merger.InOrder compare
  follows : Std.TransCmp compare → merger.Follows compare given

variable {width : Nat} {answers : List (Option (Except ε α))}

/-- Only a merger that has pulled its inputs can fail. -/
theorem Reached.seeded_of (reached : merger.Reached compare width answers given)
    (faulty : merger.failed = true ∨ merger.pending ≠ none) : merger.seeded = true := by
  refine Bool.of_not_eq_false fun unseeded => ?_
  obtain ⟨working, calm⟩ := reached.quiet unseeded
  rcases faulty with failed | pending
  · exact Bool.false_ne_true (working.symm.trans failed)
  · exact pending calm

theorem reached_new (compare : Comparison α) (inputs : List γ) :
    (new (inputs.map Watched.start) : Merger (Watched γ α ε) α ε).Reached compare inputs.length [] [] where
  given_eq := rfl
  accounts := by
    refine ⟨.nil, nofun, fun index watched found => ?_, fun index watched found _ => ?_, fun _ _ => nofun,
      fun watched present => ?_⟩
    · obtain ⟨input, -, rfl⟩ := List.mem_map.mp (List.mem_of_getElem? found)
      rfl
    · obtain ⟨input, -, rfl⟩ := List.mem_map.mp (List.mem_of_getElem? found)
      rfl
    · obtain ⟨input, -, rfl⟩ := List.mem_map.mp present
      rfl
  width_eq := List.length_map _
  seeded some := absurd rfl some
  quiet _ := ⟨rfl, rfl⟩
  inOrder _ := .nil
  follows _ := follows_nil compare _

/-- A merger that fails has nothing left to account for. -/
theorem reached_fail (given_eq : given.map Head.record = recordsOf answers) (seeded : merger.seeded = true)
    (error : ε) : merger.fail.Reached compare width (answers ++ [some (.error error)]) given where
  given_eq := by rw [given_eq, recordsOf_append]; exact (List.append_nil _).symm
  accounts := ⟨.nil, nofun, nofun, nofun, fun _ _ => nofun, nofun⟩
  width_eq := rfl
  seeded _ := seeded
  quiet unseeded := absurd (unseeded.symm.trans seeded) Bool.false_ne_true
  inOrder _ := .nil
  follows _ := fun _ _ _ => nofun

/-- Asking every input once, before the first answer. -/
theorem Reached.seed (reached : merger.Reached compare width answers given) (host : Host) :
    Ensures (merger.seed compare (Watched.pull pull again)) host fun result later =>
      result.2.seeded = true ∧ (result.1 = none → result.2.Reached compare width answers given) ∧
        Mirrored (merger.bare.seed compare pull) host result later := by
  have width_eq : merger.bare.inputs.length = merger.inputs.length := List.length_map _
  have seeded_eq : merger.bare.seeded = merger.seeded := rfl
  cases seeded : merger.seeded with
  | true =>
    simp only [Merger.seed, Mirrored, seeded_eq, seeded, if_true]
    exact ⟨seeded, fun _ => reached, rfl⟩
  | false =>
    have begun : { merger with seeded := true }.Accounts (fun _ => True) given :=
      (reached.accounts.mono fun _ (_ : True) => seeded).congr rfl rfl
    have inOrder : Ensures ({ merger with seeded := true }.refillAll compare (Watched.pull pull again)
        (List.range merger.inputs.length)) host fun result _ => Std.TransCmp compare → result.2.InOrder compare :=
      Ensures.intro fun _ _ ran trans =>
        have ordered : { merger with seeded := true }.InOrder compare := reached.inOrder trans
        (refillAll_inOrder ordered _ host).of_run ran
    -- Nothing has been handed out yet, so nothing can come before it.
    have unanswered : answers = [] :=
      Classical.not_not.mp fun some => Bool.false_ne_true (seeded.symm.trans (reached.seeded some))
    have given_eq : given = [] := List.map_eq_nil_iff.mp (reached.given_eq.trans (congrArg recordsOf unanswered))
    simp only [Merger.seed, Mirrored, seeded_eq, seeded, Bool.false_eq_true, if_false, width_eq]
    apply ((begun.refillAll (fun _ _ => trivial) List.nodup_range host).and inOrder).mono
    rintro ⟨error?, after⟩ later ⟨⟨settled, fields, length_eq, mirrored⟩, inOrder⟩
    dsimp only at settled fields length_eq inOrder
    have seeded' : after.seeded = true := by rw [fields]
    have failed_eq : after.failed = merger.failed := by rw [fields]
    refine ⟨seeded', fun quiet => ⟨reached.given_eq, ?_, ?_, fun _ => seeded', ?_, inOrder, ?_⟩, mirrored⟩
    · exact (settled quiet).mono fun _ unseeded => absurd (unseeded.symm.trans seeded') Bool.false_ne_true
    · rw [length_eq, failed_eq, reached.width_eq]
    · exact fun unseeded => absurd (unseeded.symm.trans seeded') Bool.false_ne_true
    · rw [given_eq]
      exact fun _ => follows_nil compare after

theorem Reached.takeHead (reached : merger.Reached compare width answers given) (seeded : merger.seeded = true)
    (host : Host) :
    Ensures (merger.takeHead compare (Watched.pull pull again)) host fun result later =>
      result.2.Reached compare width (answers ++ [result.1]) (given ++ merger.heads.head?.toList) ∧
        Mirrored (merger.bare.takeHead compare pull) host result later := by
  have inOrder : Ensures (merger.takeHead compare (Watched.pull pull again)) host fun result _ =>
      Std.TransCmp compare → result.2.InOrder compare :=
    Ensures.intro fun _ _ ran trans => (takeHead_inOrder (reached.inOrder trans) host).of_run ran
  apply (((reached.accounts.mono fun _ => False.elim).takeHead host).and inOrder).mono
  rintro ⟨answer, after⟩ later ⟨⟨rfl, accounts, fields, length_eq, changed, mirrored⟩, inOrder⟩
  dsimp only at fields length_eq changed accounts
  have seeded' : after.seeded = true := by rw [fields]; exact seeded
  have failed_eq : after.failed = merger.failed := by rw [fields]
  refine ⟨⟨?_, ?_, ?_, ?_, ?_, inOrder, fun trans => ?_⟩, mirrored⟩
  · rw [List.map_append, reached.given_eq, recordsOf_append]
    cases merger.heads <;> rfl
  · exact accounts.mono fun _ unseeded => absurd (unseeded.symm.trans seeded') Bool.false_ne_true
  · rw [length_eq, failed_eq, reached.width_eq]
  · exact fun _ => seeded'
  · exact fun unseeded => absurd (unseeded.symm.trans seeded') Bool.false_ne_true
  · have ordered := reached.inOrder trans
    unfold InOrder at ordered
    cases found : merger.heads with
    | nil =>
      rw [found] at changed
      intro _ _ _ head present
      rcases changed head present with older | newer
      · cases older
      · cases newer
    | cons head heads =>
      rw [found] at changed accounts ordered
      exact accounts.follows (fun other => List.rel_of_pairwise_cons ordered) fun other present =>
        (changed other present).imp_right fun same => (Option.some.inj same).symm

/-- One more answer. -/
theorem Reached.next (reached : merger.Reached compare width answers given) (host : Host) :
    Ensures (merger.next compare (Watched.pull pull again)) host fun result later =>
      (∃ given', result.2.Reached compare width (answers ++ [result.1]) given') ∧
        Mirrored (merger.bare.next compare pull) host result later := by
  have failed_eq : merger.bare.failed = merger.failed := rfl
  have pending_eq : merger.bare.pending = merger.pending := rfl
  cases failed : merger.failed with
  | true =>
    simp only [Merger.next, Mirrored, failed_eq, failed, if_true]
    rw [Ensures.pure_iff]
    refine ⟨⟨given, { reached with given_eq := ?_, seeded := fun _ => reached.seeded_of (.inl failed) }⟩, rfl⟩
    rw [reached.given_eq, recordsOf_append]
    exact (List.append_nil _).symm
  | false =>
    cases pending : merger.pending with
    | some error =>
      have seeded : merger.seeded = true :=
        reached.seeded_of (.inr fun calm => Option.some_ne_none error (pending.symm.trans calm))
      simp only [Merger.next, Mirrored, failed_eq, pending_eq, failed, pending]
      rw [if_neg Bool.false_ne_true, if_neg Bool.false_ne_true, Ensures.pure_iff]
      exact ⟨⟨given, reached_fail reached.given_eq seeded error⟩, rfl⟩
    | none =>
      simp only [Merger.next, Mirrored, failed_eq, pending_eq, failed, pending]
      rw [if_neg Bool.false_ne_true, if_neg Bool.false_ne_true, Ensures.bind_iff]
      apply (reached.seed host).mono
      rintro ⟨error?, after⟩ later ⟨seeded, reached', mirrored⟩
      simp only [Mirrored] at mirrored
      simp only [StateT.run_bind, mirrored]
      cases error? with
      | some error => exact ⟨⟨given, reached_fail reached.given_eq seeded error⟩, rfl⟩
      | none =>
        apply ((reached' rfl).takeHead seeded later).mono
        exact fun result last taken => ⟨⟨_, taken.1⟩, taken.2⟩

end Steps

/-- The answers to so many requests for the next record, and the merger after them. -/
def play (compare : Comparison α) (pull : γ → HostM (Option (Except ε α) × γ)) :
    Nat → Merger γ α ε → HostM (List (Option (Except ε α)) × Merger γ α ε)
  | 0, merger => return ([], merger)
  | count + 1, merger => do
    let (answer, merger) ← merger.next compare pull
    let (answers, merger) ← play compare pull count merger
    return (answer :: answers, merger)

section Playing

variable {merger : Merger (Watched γ α ε) α ε} {given : List (Head α)} {compare : Comparison α} {width : Nat}
  {answers : List (Option (Except ε α))}

theorem Reached.play (pull : γ → HostM (Option (Except ε α) × γ))
    (again : Watched γ α ε → HostM (Option (Except ε α) × Watched γ α ε))
    (reached : merger.Reached compare width answers given) (count : Nat) (host : Host) :
    Ensures (merger.play compare (Watched.pull pull again) count) host fun run later =>
      run.1.length = count ∧ (∃ given', run.2.Reached compare width (answers ++ run.1) given') ∧
        Mirrored (merger.bare.play compare pull count) host run later := by
  induction count generalizing merger answers given host with
  | zero =>
    simp only [Merger.play]
    rw [Ensures.pure_iff]
    refine ⟨rfl, ⟨given, ?_⟩, rfl⟩
    rw [List.append_nil]
    exact reached
  | succ count ih =>
    simp only [Merger.play]
    rw [Ensures.bind_iff]
    apply (reached.next host).mono
    rintro ⟨answer, middle⟩ later ⟨⟨given', reached'⟩, mirrored⟩
    rw [Ensures.bind_iff]
    apply (ih reached' later).mono
    rintro ⟨answers', after⟩ last ⟨length_eq, ⟨given'', reached''⟩, mirrored'⟩
    rw [Ensures.pure_iff, Mirrored, run_bind_of_run mirrored, run_bind_of_run mirrored']
    refine ⟨congrArg (· + 1) length_eq, ⟨given'', ?_⟩, rfl⟩
    rw [List.append_assoc] at reached''
    exact reached''

/-- The frontier of a merger of so many inputs after some answers, with the records handed out and their inputs. -/
structure Frontier (compare : Comparison α) (width : Nat) (answers : List (Option (Except ε α)))
    (merger : Merger (Watched γ α ε) α ε) (given : List (Head α)) : Prop where
  given_eq : given.map Head.record = recordsOf answers
  /-- No input has two heads. -/
  distinct : (merger.heads.map Head.input).Nodup
  known : ∀ head ∈ merger.heads, head.input < width
  seeded : answers ≠ [] → merger.seeded = true
  liveInputs_eq : merger.seeded = true → merger.liveInputs = merger.heads.length
  width_eq : merger.failed = false → merger.inputs.length = width
  cleared : merger.failed = true → merger.heads = []
  /-- The records an input gave were handed out in order, up to its head. -/
  records_eq : ∀ index watched, merger.inputs[index]? = some watched →
    watched.records = held given index ++ held merger.heads index
  /-- An input has a head exactly if a record of it was not handed out. -/
  fronted_iff : ∀ index watched, merger.inputs[index]? = some watched →
    (index ∈ merger.heads.map Head.input ↔ (held given index).length < watched.records.length)
  /-- No input was asked again after its end or an error. -/
  once : ∀ watched ∈ merger.inputs, recordsOnly watched.answers.dropLast
  /-- With what the inputs give in order, of which this much is still ahead, a head is before all that is ahead in its
  input and after what was handed out last. -/
  ordered : Std.TransCmp compare → ∀ ahead : Nat → List α,
    (∀ index watched, merger.inputs[index]? = some watched → compare.Ordered (watched.records ++ ahead index)) →
      ∀ head ∈ merger.heads, (∀ record ∈ ahead head.input, compare.le head.record record) ∧
        ∀ last ∈ given.getLast?, compare.le last.record head.record

theorem Reached.frontier (reached : merger.Reached compare width answers given) :
    merger.Frontier compare width answers given where
  given_eq := reached.given_eq
  distinct := reached.accounts.distinct
  known head present := by
    have bound := reached.accounts.known head present
    rw [reached.width_eq] at bound
    split at bound
    · exact absurd bound (Nat.not_lt_zero _)
    · exact bound
  seeded := reached.seeded
  liveInputs_eq seeded := if_pos seeded
  width_eq working := by rw [reached.width_eq, working]; rfl
  cleared failed := by
    refine List.eq_nil_iff_forall_not_mem.mpr fun head present => ?_
    have bound := reached.accounts.known head present
    rw [reached.width_eq, failed] at bound
    exact absurd bound (Nat.not_lt_zero _)
  records_eq index watched found := (reached.accounts.records_eq index watched found).symm
  fronted_iff index watched found := by
    rw [← reached.accounts.records_eq index watched found, List.length_append,
      mem_inputs_iff_held reached.accounts.distinct]
    exact (Nat.lt_add_right_iff_pos).symm
  once := reached.accounts.once
  ordered trans ahead rising head present := by
    obtain ⟨watched, found, records_eq⟩ := reached.accounts.records_of_mem present
    have rising' := rising head.input watched found
    unfold Comparison.Ordered at rising'
    rw [records_eq, List.append_assoc, List.pairwise_append] at rising'
    refine ⟨fun record later => List.rel_of_pairwise_cons rising'.2.1 later, fun last last_eq => ?_⟩
    refine reached.follows trans (fun watched member => ?_) last last_eq head present
    obtain ⟨index, found⟩ := List.getElem?_of_mem member
    exact (List.pairwise_append.mp (rising index watched found)).1

/-- Whatever the inputs are, after any number of requests a merger of them is where it is with the inputs watched, and
there the frontier has one record at most of each input: the one that was pulled and not handed out. Since this does
not depend on what an input would do when asked again after its end or an error, it is not asked again. -/
theorem play_frontier (compare : Comparison α) (pull : γ → HostM (Option (Except ε α) × γ))
    (again : Watched γ α ε → HostM (Option (Except ε α) × Watched γ α ε)) (inputs : List γ) (count : Nat)
    (host : Host) :
    Ensures ((new (inputs.map Watched.start)).play compare (Watched.pull pull again) count) host fun run later =>
      ((new inputs).play compare pull count).run host = ((run.1, run.2.bare), later) ∧ run.1.length = count ∧
        ∃ given, run.2.Frontier compare inputs.length run.1 given := by
  have bare_eq : (new (inputs.map Watched.start) : Merger (Watched γ α ε) α ε).bare = new inputs := by
    simp only [bare, new, List.map_map]
    congr 1
    exact List.map_id inputs
  apply ((reached_new compare inputs).play pull again count host).mono
  rintro ⟨answers, after⟩ later ⟨length_eq, ⟨given, reached⟩, mirrored⟩
  rw [bare_eq] at mirrored
  exact ⟨mirrored, length_eq, given, reached.frontier⟩

/-- Two lists in order up to an error, after the first record: each has its next record on the frontier. -/
theorem play_frontier_lists :
    let inputs : List (List (Except Unit Nat)) := [[.ok 1, .ok 3, .error (), .ok 0], [.ok 2]]
    let again : Watched (List (Except Unit Nat)) Nat Unit → HostM _ := fun watched => return (some (.error ()), watched)
    Ensures ((new (inputs.map Watched.start)).play Ord.compare (Watched.pull pullList again) 1) (Host.fresh .empty)
      fun run _ => run.2.heads = [⟨2, 1⟩, ⟨3, 0⟩] ∧ run.2.liveInputs = 2 ∧
        (∀ watched ∈ run.2.inputs, Comparison.Ordered Ord.compare watched.records) ∧
        ∃ given : List (Head Nat), given.map Head.record = [1] ∧
          ∀ head ∈ run.2.heads, ∀ last ∈ given.getLast?, Comparison.le Ord.compare last.record head.record := by
  intro inputs again
  have told : Ensures ((new (inputs.map Watched.start)).play Ord.compare (Watched.pull pullList again) 1)
      (Host.fresh .empty) fun run _ => run.1 = [some (.ok 1)] ∧ run.2.heads = [⟨2, 1⟩, ⟨3, 0⟩] ∧
        run.2.liveInputs = 2 ∧ run.2.inputs.map Watched.records = [[1, 3], [2]] := ⟨rfl, rfl, rfl, rfl⟩
  apply ((play_frontier Ord.compare pullList again inputs 1 (Host.fresh .empty)).and told).mono
  rintro run later ⟨⟨-, -, given, frontier⟩, answers_eq, heads_eq, live_eq, records_eq⟩
  have ordered : ∀ watched ∈ run.2.inputs, Comparison.Ordered Ord.compare watched.records := by
    have rising : ∀ records ∈ [[1, 3], [2]], Comparison.Ordered (Ord.compare : Comparison Nat) records := by
      unfold Comparison.Ordered
      decide
    rw [← records_eq] at rising
    exact fun watched present => rising _ (List.mem_map_of_mem present)
  refine ⟨heads_eq, live_eq, ordered, given, ?_, fun head present => ?_⟩
  · rw [frontier.given_eq, answers_eq]
    rfl
  · refine (frontier.ordered inferInstance (fun _ => []) (fun index watched found => ?_) head present).2
    rw [List.append_nil]
    exact ordered watched (List.mem_of_getElem? found)

end Playing

end Merger

end SpillSort
