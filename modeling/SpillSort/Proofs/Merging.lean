import Mathlib.Data.List.Forall2
import SpillSort.Proofs.Frontier
import SpillSort.Proofs.RunReading

/-! # What a merge gives

Inputs are described by a law: which records an input still has to give on a given store. A merger of
inputs under a law merges some records when these are the stable sort of all lanes, and then it gives the
first of them, the end, or a fault of one of its inputs in place of a record that is still to come. A fault
met while a head was replaced stays pending, and what the replaced input still had is missing by then.
-/

namespace SpillSort

variable {γ α ε : Type}

/-- Inputs follow a law: pulling one gives what the law allows, and does nothing to the store that the law
of any input could notice. -/
structure Supplies (pull : γ → HostM (Option (Except ε α) × γ)) (law : γ → List α → Disk → Prop) (fault : ε → Prop)
    (effect : Disk → Disk → Prop) : Prop where
  refl : ∀ disk, effect disk disk
  trans : ∀ {before middle after}, effect before middle → effect middle after → effect before after
  stable : ∀ {input records before after}, law input records before → effect before after → law input records after
  pull : ∀ {input records} {host : Host}, law input records host.disk → Ensures (pull input) host fun result later =>
    effect host.disk later.disk ∧ Delivered (fun rest => law result.2 rest later.disk) fault records result.1

namespace Merger

variable {compare : Comparison α} {law : γ → List α → Disk → Prop} {fault : ε → Prop} {disk : Disk}

/-! ## The invariant -/

/-- The frontier and the inputs make up the lanes. -/
structure Lanes (law : γ → List α → Disk → Prop) (compare : Comparison α) (merger : Merger γ α ε)
    (lanes : List (List α)) (disk : Disk) : Prop where
  lanes_ordered : ∀ lane ∈ lanes, compare.Ordered lane
  heads_ordered : merger.heads.Pairwise fun a b => a.before compare b
  distinct : (merger.heads.map Head.input).Nodup
  known : ∀ head ∈ merger.heads, head.input < merger.inputs.length
  supplied : ∀ index input, merger.inputs[index]? = some input →
    ∃ rest, law input rest disk ∧ lanes[index]? = some (held merger.heads index ++ rest)
  length_eq : merger.inputs.length = lanes.length

/-- The front of a lane is on the frontier, unless the lane is at its end. -/
def Fronted (merger : Merger γ α ε) (lanes : List (List α)) (index : Nat) : Prop :=
  ∀ lane, lanes[index]? = some lane → lane ≠ [] → index ∈ merger.heads.map Head.input

/-- The records a merger still has to give. -/
def Merges (law : γ → List α → Disk → Prop) (fault : ε → Prop) (compare : Comparison α) (merger : Merger γ α ε)
    (records : List α) (disk : Disk) : Prop :=
  merger.failed = false ∧
    match merger.pending with
    | some error => fault error ∧ records ≠ []
    | none => ∃ lanes, merger.Lanes law compare lanes disk ∧ records = compare.stableSort lanes.flatten ∧
        if merger.seeded then ∀ index, merger.Fronted lanes index else merger.heads = []

theorem Lanes.stable {merger : Merger γ α ε} {lanes : List (List α)} {after : Disk}
    (made : merger.Lanes law compare lanes disk)
    (keeps : ∀ input records, law input records disk → law input records after) :
    merger.Lanes law compare lanes after := by
  refine { made with supplied := ?_ }
  intro index input found
  obtain ⟨rest, holds, lane⟩ := made.supplied index input found
  exact ⟨rest, keeps _ _ holds, lane⟩

theorem Lanes.merges {merger : Merger γ α ε} {lanes : List (List α)} (made : merger.Lanes law compare lanes disk)
    (fronted : ∀ index, merger.Fronted lanes index) (seeded : merger.seeded = true) (working : merger.failed = false)
    (quiet : merger.pending = none) : merger.Merges law fault compare (compare.stableSort lanes.flatten) disk := by
  refine ⟨working, ?_⟩
  rw [quiet]
  exact ⟨lanes, made, rfl, (if_pos seeded).mpr fronted⟩

theorem merges_pending {merger : Merger γ α ε} {error : ε} {records : List α} (failed : fault error)
    (missing : records ≠ []) (working : merger.failed = false) (pending : merger.pending = some error) :
    merger.Merges law fault compare records disk := by
  refine ⟨working, ?_⟩
  rw [pending]
  exact ⟨failed, missing⟩

/-- A merge does not notice what its inputs do not notice. -/
theorem Merges.stable {merger : Merger γ α ε} {records : List α} {after : Disk}
    (merges : merger.Merges law fault compare records disk)
    (keeps : ∀ input records, law input records disk → law input records after) :
    merger.Merges law fault compare records after := by
  obtain ⟨working, state⟩ := merges
  refine ⟨working, ?_⟩
  split at state
  · exact state
  · obtain ⟨lanes, made, rest⟩ := state
    exact ⟨lanes, made.stable keeps, rest⟩

/-- Inputs that give ordered records are merged into the stable sort of them all. -/
theorem merges_new [Std.TransCmp compare] {inputs : List γ} {lanes : List (List α)}
    (supplied : List.Forall₂ (fun input lane => law input lane disk) inputs lanes)
    (ordered : ∀ lane ∈ lanes, compare.Ordered lane) :
    (new inputs : Merger γ α ε).Merges law fault compare (compare.stableSort lanes.flatten) disk := by
  refine ⟨rfl, lanes, ⟨ordered, .nil, .nil, nofun, ?_, supplied.length_eq⟩, rfl, rfl⟩
  intro index input found
  obtain ⟨bound, input_eq⟩ := List.getElem?_eq_some_iff.mp found
  have bound' : index < lanes.length := supplied.length_eq ▸ bound
  have holds : law inputs[index] lanes[index] disk := supplied.get bound bound'
  exact ⟨lanes[index], input_eq ▸ holds, List.getElem?_eq_getElem bound'⟩

/-! ## Refilling -/

section Refilling

variable [Std.TransCmp compare] {pull : γ → HostM (Option (Except ε α) × γ)} {effect : Disk → Disk → Prop}
  (supplies : Supplies pull law fault effect)
include supplies

omit [Std.TransCmp compare] in
private theorem Lanes.set {merger : Merger γ α ε} {lanes : List (List α)} {index : Nat} {before after : Disk}
    {input input' : γ} {rest : List α} {heads : List (Head α)} (made : merger.Lanes law compare lanes before)
    (changed : effect before after) (found : merger.inputs[index]? = some input) (holds : law input' rest after)
    (lane : lanes[index]? = some (held heads index ++ rest)) (ordered : heads.Pairwise fun a b => a.before compare b)
    (distinct : (heads.map Head.input).Nodup) (known : ∀ head ∈ heads, head ∈ merger.heads ∨ head.input = index)
    (others : ∀ other, other ≠ index → held heads other = held merger.heads other) :
    { merger with inputs := merger.inputs.set index input', heads }.Lanes law compare lanes after := by
  have bound := (List.getElem?_eq_some_iff.mp found).1
  refine ⟨made.lanes_ordered, ordered, distinct, ?_, ?_, by simpa using made.length_eq⟩
  · intro head present
    dsimp only
    rw [List.length_set]
    rcases known head present with old | new
    · exact made.known head old
    · exact new ▸ bound
  intro other input'' found'
  by_cases same : other = index
  · subst same
    obtain rfl : input' = input'' := by simpa [List.getElem?_set, bound] using found'
    exact ⟨rest, holds, lane⟩
  · rw [List.getElem?_set_ne (Ne.symm same)] at found'
    obtain ⟨rest', holds', lane'⟩ := made.supplied other input'' found'
    refine ⟨rest', supplies.stable holds' changed, ?_⟩
    rw [others other same]
    exact lane'

/-- A record that an input without a head has given is its head then. -/
private theorem Lanes.insert {merger : Merger γ α ε} {lanes : List (List α)} {index : Nat} {before after : Disk}
    {input input' : γ} {record : α} {rest : List α} (made : merger.Lanes law compare lanes before)
    (changed : effect before after) (found : merger.inputs[index]? = some input) (holds : law input' rest after)
    (absent : index ∉ merger.heads.map Head.input) (lane : lanes[index]? = some (record :: rest)) :
    { merger with
      inputs := merger.inputs.set index input'
      heads := Head.insert compare ⟨record, index⟩ merger.heads }.Lanes law compare lanes after := by
  have among := Head.perm_insert compare ⟨record, index⟩ merger.heads
  refine made.set supplies changed found holds ?_ (Head.pairwise_insert made.heads_ordered) ?_ ?_ ?_
  · rw [held_insert_self absent, lane]
    rfl
  · exact (among.map Head.input).nodup_iff.mpr (List.nodup_cons.mpr ⟨absent, made.distinct⟩)
  · intro head present
    rcases List.mem_cons.mp (among.mem_iff.mp present) with rfl | old
    · exact .inr rfl
    · exact .inl old
  · exact fun other differ => held_insert_of_ne (Ne.symm differ) _

/-- What one input gives is put on the frontier, and the lanes stay what they are. -/
theorem Lanes.refill {merger : Merger γ α ε} {lanes : List (List α)} {index : Nat} {host : Host}
    (made : merger.Lanes law compare lanes host.disk) (absent : index ∉ merger.heads.map Head.input) :
    Ensures (merger.refill compare pull index) host fun result later =>
      effect host.disk later.disk ∧
        result.2 = { merger with inputs := result.2.inputs, heads := result.2.heads } ∧
        match result.1 with
        | some error => fault error ∧ lanes[index]? ≠ none ∧ lanes[index]? ≠ some []
        | none => result.2.Lanes law compare lanes later.disk ∧ result.2.Fronted lanes index ∧
            ∀ other, other ≠ index →
              (other ∈ result.2.heads.map Head.input ↔ other ∈ merger.heads.map Head.input) := by
  simp only [Merger.refill]
  split
  · next missing =>
    refine ⟨supplies.refl _, rfl, made, ?_, fun _ _ => Iff.rfl⟩
    intro lane found
    have bound := (List.getElem?_eq_some_iff.mp found).1
    rw [← made.length_eq] at bound
    rw [List.getElem?_eq_getElem bound] at missing
    cases missing
  · next input found =>
    obtain ⟨rest, holds, lane⟩ := made.supplied index input found
    have lane_eq : lanes[index]? = some rest := by rw [lane, held_eq_nil absent, List.nil_append]
    rw [Ensures.bind_iff]
    apply (supplies.pull holds).mono
    rintro ⟨answer, input'⟩ later ⟨changed, delivered⟩
    cases delivered with
    | ended left =>
      refine ⟨changed, rfl, made.set supplies changed found left lane made.heads_ordered made.distinct
        (fun _ => .inl) fun _ _ => rfl, ?_, fun _ _ => Iff.rfl⟩
      intro lane' found' some
      rw [lane_eq] at found'
      exact absurd (Option.some.inj found').symm some
    | @record record rest left =>
      have perm := (Head.perm_insert compare ⟨record, index⟩ merger.heads).map Head.input
      refine ⟨changed, rfl, made.insert supplies changed found left absent lane_eq, ?_, ?_⟩
      · exact fun _ _ _ => perm.mem_iff.mpr List.mem_cons_self
      · intro other differ
        refine perm.mem_iff.trans ?_
        simp [differ]
    | faulty failed missing =>
      refine ⟨changed, rfl, failed, ?_, ?_⟩
      · simp [lane_eq]
      · simpa [lane_eq] using missing

omit supplies [Std.TransCmp compare] in
private theorem Fronted.of_iff {merger merger' : Merger γ α ε} {lanes : List (List α)} {index : Nat}
    (fronted : merger.Fronted lanes index)
    (same : index ∈ merger'.heads.map Head.input ↔ index ∈ merger.heads.map Head.input) :
    merger'.Fronted lanes index := fun lane found some => same.mpr (fronted lane found some)

omit supplies [Std.TransCmp compare] in
/-- Without heads all lanes are at their end. -/
private theorem flatten_eq_nil_of_fronted {merger : Merger γ α ε} {lanes : List (List α)}
    (fronted : ∀ index, merger.Fronted lanes index) (none_left : merger.heads = []) : lanes.flatten = [] := by
  rw [List.flatten_eq_nil_iff]
  intro lane present
  obtain ⟨index, found⟩ := List.getElem?_of_mem present
  refine Classical.byContradiction fun some => ?_
  have there := fronted index lane found some
  rw [none_left] at there
  cases there

omit supplies [Std.TransCmp compare] in
/-- Without its first head a merger still fronts the lanes of the other inputs. -/
private theorem Fronted.tail {merger : Merger γ α ε} {lanes : List (List α)} {index : Nat} {head : Head α}
    {heads : List (Head α)} (fronted : merger.Fronted lanes index) (found : merger.heads = head :: heads)
    (differ : index ≠ head.input) (rest : List α) :
    { merger with heads }.Fronted (lanes.set head.input rest) index := by
  intro lane found' some
  rw [List.getElem?_set_ne (Ne.symm differ)] at found'
  have there := fronted lane found' some
  rw [found, List.map_cons] at there
  exact (List.mem_cons.mp there).resolve_left differ

/-- Refilling some inputs fronts their lanes, unless one of them fails with records still to come. -/
theorem Lanes.refillAll {merger : Merger γ α ε} {lanes : List (List α)} {indices : List Nat} {host : Host}
    (made : merger.Lanes law compare lanes host.disk) (absent : ∀ index ∈ indices, index ∉ merger.heads.map Head.input)
    (once : indices.Nodup) :
    Ensures (merger.refillAll compare pull indices) host fun result later =>
      effect host.disk later.disk ∧
        result.2 = { merger with inputs := result.2.inputs, heads := result.2.heads } ∧
        match result.1 with
        | some error => fault error ∧ lanes.flatten ≠ []
        | none => result.2.Lanes law compare lanes later.disk ∧
            ∀ index, index ∈ indices ∨ merger.Fronted lanes index → result.2.Fronted lanes index := by
  induction indices generalizing merger host with
  | nil => exact ⟨supplies.refl _, rfl, made, fun index fronted => fronted.resolve_left List.not_mem_nil⟩
  | cons index indices ih =>
    obtain ⟨notLater, once'⟩ := List.nodup_cons.mp once
    simp only [Merger.refillAll]
    rw [Ensures.bind_iff]
    apply (made.refill supplies (absent index List.mem_cons_self)).mono
    rintro ⟨answer, after⟩ later ⟨changed, fields, outcome⟩
    cases answer with
    | some error =>
      obtain ⟨failed, known, some⟩ := outcome
      refine ⟨changed, fields, failed, ?_⟩
      obtain ⟨lane, found⟩ := Option.ne_none_iff_exists'.mp known
      intro empty
      rw [List.flatten_eq_nil_iff] at empty
      exact some (found.trans (congrArg _ (empty lane (List.mem_of_getElem? found))))
    | none =>
      obtain ⟨made', fronted, others⟩ := outcome
      have absent' : ∀ other ∈ indices, other ∉ after.heads.map Head.input := by
        intro other present
        have differ : other ≠ index := fun same => notLater (same ▸ present)
        rw [others other differ]
        exact absent other (List.mem_cons_of_mem _ present)
      apply (ih made' absent' once').mono
      rintro ⟨answer, last⟩ final ⟨changed', fields', outcome'⟩
      refine ⟨supplies.trans changed changed', ?_, ?_⟩
      · dsimp only at fields fields' ⊢
        rw [fields', fields]
      · cases answer with
        | some error => exact outcome'
        | none =>
          refine ⟨outcome'.1, ?_⟩
          intro other asked
          apply outcome'.2
          by_cases same : other = index
          · exact .inr (same ▸ fronted)
          · rcases asked with listed | already
            · exact .inl ((List.mem_cons.mp listed).resolve_left same)
            · exact .inr (already.of_iff (others other same))

/-! ## Giving records -/

omit supplies [Std.TransCmp compare] in
/-- Taking the first record off a lane. -/
private theorem Lanes.tail {merger : Merger γ α ε} {lanes : List (List α)} {head : Head α} {heads : List (Head α)}
    {rest : List α} (made : merger.Lanes law compare lanes disk) (found : merger.heads = head :: heads)
    (lane : lanes[head.input]? = some (head.record :: rest)) :
    { merger with heads }.Lanes law compare (lanes.set head.input rest) disk := by
  have ordered := found ▸ made.heads_ordered
  have distinct := found ▸ made.distinct
  obtain ⟨absent, distinct'⟩ := List.nodup_cons.mp distinct
  have bound := (List.getElem?_eq_some_iff.mp lane).1
  have known : ∀ other ∈ heads, other.input < merger.inputs.length := fun other present =>
    made.known other (found ▸ List.mem_cons_of_mem _ present)
  refine ⟨?_, (List.pairwise_cons.mp ordered).2, distinct', known, ?_, by simpa using made.length_eq⟩
  · intro lane' present
    rcases List.mem_or_eq_of_mem_set present with old | rfl
    · exact made.lanes_ordered lane' old
    · exact (List.pairwise_cons.mp (made.lanes_ordered _ (List.mem_of_getElem? lane))).2
  · intro index input given
    obtain ⟨rest', holds, lane'⟩ := made.supplied index input given
    refine ⟨rest', holds, ?_⟩
    rw [found] at lane'
    by_cases same : index = head.input
    · subst same
      rw [show held (head :: heads) head.input = head.record :: held heads head.input from held_cons_self ..,
        held_eq_nil absent, lane] at lane'
      dsimp only
      rw [held_eq_nil absent, List.getElem?_set_self bound]
      exact congrArg some (List.cons.inj (Option.some.inj lane')).2
    · rw [held_cons_of_ne (Ne.symm same)] at lane'
      rwa [List.getElem?_set_ne (Ne.symm same)]

omit supplies [Std.TransCmp compare] in
/-- A head is the front of the lane of its input. -/
theorem Lanes.front {merger : Merger γ α ε} {lanes : List (List α)} {head : Head α}
    (made : merger.Lanes law compare lanes disk) (present : head ∈ merger.heads) :
    ∃ rest, lanes[head.input]? = some (head.record :: rest) := by
  obtain ⟨rest, -, lane⟩ := made.supplied head.input _ (List.getElem?_eq_getElem (made.known head present))
  rw [held_of_mem made.distinct present] at lane
  exact ⟨rest, lane⟩

omit supplies in
/-- The least head is before the fronts of all lanes. -/
theorem Lanes.least {merger : Merger γ α ε} {lanes : List (List α)} {head : Head α} {heads : List (Head α)}
    (made : merger.Lanes law compare lanes disk) (fronted : ∀ index, merger.Fronted lanes index)
    (found : merger.heads = head :: heads) {index : Nat} {front : α} {tail : List α}
    (lane : lanes[index]? = some (front :: tail)) : head.before compare ⟨front, index⟩ := by
  obtain ⟨other, present, rfl⟩ := List.mem_map.mp (fronted index _ lane (List.cons_ne_nil _ _))
  obtain ⟨rest, lane'⟩ := made.front present
  obtain ⟨rfl, -⟩ : other.record = front ∧ rest = tail := List.cons.inj (Option.some.inj (lane'.symm.trans lane))
  have ordered := found ▸ made.heads_ordered
  rw [found] at present
  rcases List.mem_cons.mp present with rfl | later
  · exact (Head.before_total other other).elim id id
  · exact List.rel_of_pairwise_cons ordered later

/-- With every lane fronted, the least head is the first of the sort of all lanes. -/
theorem Lanes.takeHead {merger : Merger γ α ε} {lanes : List (List α)} {host : Host}
    (made : merger.Lanes law compare lanes host.disk) (fronted : ∀ index, merger.Fronted lanes index)
    (seeded : merger.seeded = true) (working : merger.failed = false) (quiet : merger.pending = none) :
    Ensures (merger.takeHead compare pull) host fun result later =>
      effect host.disk later.disk ∧
        Delivered (fun rest => result.2.Merges law fault compare rest later.disk) fault
          (compare.stableSort lanes.flatten) result.1 := by
  simp only [Merger.takeHead]
  split
  · next none_left =>
    have sorted_eq : compare.stableSort lanes.flatten = [] := by
      rw [flatten_eq_nil_of_fronted fronted none_left, Comparison.stableSort_nil]
    have merges : merger.Merges law fault compare (compare.stableSort lanes.flatten) host.disk :=
      made.merges fronted seeded working quiet
    rw [sorted_eq] at merges ⊢
    exact ⟨supplies.refl _, .ended merges⟩
  · next head heads found =>
    have present : head ∈ merger.heads := found ▸ List.mem_cons_self
    have distinct := found ▸ made.distinct
    obtain ⟨absent, -⟩ := List.nodup_cons.mp distinct
    obtain ⟨rest, lane⟩ := made.front present
    have bound := (List.getElem?_eq_some_iff.mp lane).1
    rw [stableSort_lanes made.lanes_ordered lane fun other front tail => made.least fronted found]
    have shorter := made.tail found lane
    rw [Ensures.bind_iff]
    apply (shorter.refill supplies absent).mono
    rintro ⟨error?, after⟩ later ⟨changed, fields, outcome⟩
    dsimp only at fields
    have working' : after.failed = false := by
      rw [fields]
      exact working
    refine ⟨changed, .record ?_⟩
    cases error? with
    | some error =>
      obtain ⟨failed, -, some⟩ := outcome
      refine merges_pending failed ?_ working' rfl
      intro empty
      rw [Comparison.stableSort_eq_nil_iff, List.flatten_eq_nil_iff] at empty
      have gone := empty rest (List.mem_of_getElem? (List.getElem?_set_self bound))
      exact some ((List.getElem?_set_self bound).trans (congrArg _ gone))
    | none =>
      obtain ⟨made', last, others⟩ := outcome
      have seeded' : after.seeded = true := by
        rw [fields]
        exact seeded
      refine Lanes.merges ⟨made'.lanes_ordered, made'.heads_ordered, made'.distinct, made'.known, made'.supplied,
        made'.length_eq⟩ ?_ seeded' working' rfl
      intro index
      by_cases same : index = head.input
      · exact same ▸ last
      · exact ((fronted index).tail found same rest).of_iff (others index same)

/-- Before the first record every input is asked once. -/
theorem Merges.seed {merger : Merger γ α ε} {records : List α} {host : Host}
    (merges : merger.Merges law fault compare records host.disk) (quiet : merger.pending = none) :
    Ensures (merger.seed compare pull) host fun result later =>
      effect host.disk later.disk ∧
        match result.1 with
        | some error => fault error ∧ records ≠ []
        | none => ∃ lanes, result.2.Lanes law compare lanes later.disk ∧ records = compare.stableSort lanes.flatten ∧
            (∀ index, result.2.Fronted lanes index) ∧ result.2.seeded = true ∧ result.2.failed = false ∧
            result.2.pending = none := by
  obtain ⟨working, state⟩ := merges
  rw [quiet] at state
  obtain ⟨lanes, made, records_eq, started⟩ := state
  simp only [Merger.seed]
  split
  · next seeded =>
    rw [if_pos seeded] at started
    exact ⟨supplies.refl _, lanes, made, records_eq, started, seeded, working, quiet⟩
  · next notSeeded =>
    rw [if_neg notSeeded] at started
    have made' : { merger with seeded := true }.Lanes law compare lanes host.disk :=
      ⟨made.lanes_ordered, made.heads_ordered, made.distinct, made.known, made.supplied, made.length_eq⟩
    refine (made'.refillAll supplies (fun index _ => ?_) List.nodup_range).mono ?_
    · dsimp only
      rw [started]
      exact List.not_mem_nil
    · rintro ⟨error?, after⟩ later ⟨changed, fields, outcome⟩
      refine ⟨changed, ?_⟩
      cases error? with
      | some error =>
        refine ⟨outcome.1, ?_⟩
        intro empty
        exact outcome.2 (Comparison.stableSort_eq_nil_iff.mp (records_eq.symm.trans empty))
      | none =>
        dsimp only at fields ⊢
        refine ⟨lanes, outcome.1, records_eq, ?_, by rw [fields], by rw [fields]; exact working,
          by rw [fields]; exact quiet⟩
        intro index lane found some
        have bound := (List.getElem?_eq_some_iff.mp found).1
        exact outcome.2 index (.inl (List.mem_range.mpr (made.length_eq ▸ bound))) lane found some

/-- A merge gives its records in order, or a fault where one is still to come. -/
theorem Merges.next {merger : Merger γ α ε} {records : List α} {host : Host}
    (merges : merger.Merges law fault compare records host.disk) :
    Ensures (merger.next compare pull) host fun result later =>
      effect host.disk later.disk ∧
        Delivered (fun rest => result.2.Merges law fault compare rest later.disk) fault records result.1 := by
  simp only [Merger.next]
  rw [if_neg (by simp [merges.1])]
  cases pending : merger.pending with
  | some error =>
    have state := merges.2
    rw [pending] at state
    exact ⟨supplies.refl _, .faulty state.1 state.2⟩
  | none =>
    dsimp only
    rw [Ensures.bind_iff]
    apply (merges.seed supplies pending).mono
    rintro ⟨error?, after⟩ later ⟨changed, outcome⟩
    cases error? with
    | some error => exact ⟨changed, .faulty outcome.1 outcome.2⟩
    | none =>
      obtain ⟨lanes, made, rfl, fronted, seeded, working, quiet⟩ := outcome
      apply (made.takeHead supplies fronted seeded working quiet).mono
      rintro result last ⟨changed', delivered⟩
      exact ⟨supplies.trans changed changed', delivered⟩

end Refilling

end Merger

end SpillSort
