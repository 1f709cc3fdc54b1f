import SpillSort.Proofs.Answers
import SpillSort.Proofs.MergeSteps

/-! # What a merge of lists gives, errors included

Lists of answers whose records are in order up to their first errors are merged by record, then by input, then by
position. If lists open with errors, all that is given is the error of the first of them. Otherwise the first
record after which its list has an error is the last to be given, and that error comes next. After that there is
nothing more, however often the merger is asked.
-/

namespace SpillSort

variable {γ α β ε : Type}

theorem Tagging.Marks.map_record {tagging : Tagging β α ε} {lane : List (Except ε α)} {tags : List β}
    (marks : tagging.Marks lane tags) : tags.map tagging.record = goods lane := by
  induction marks with
  | ended => rfl
  | stopped => rfl
  | record _ _ ih => exact congrArg _ ih

/-! ## The records of lists in order -/

/-- A record before the first error of one of some lists, with its list and its position there. -/
structure Placed (α : Type) where
  record : α
  input : Nat
  position : Nat

namespace Placed

/-- The order of merging: by record, then by input, then by position. -/
def order (compare : Comparison α) : Comparison (Placed α) :=
  compareLex (compare.byKey record) (compareLex (compareOn input) (compareOn position))

/-- The records of one list. -/
def ofLane (input : Nat) (lane : List (Except ε α)) : List (Placed α) :=
  (goods lane).mapIdx fun position record => ⟨record, input, position⟩

/-- The records of all lists, list by list. -/
def ofInputs (inputs : List (List (Except ε α))) : List (Placed α) := (inputs.mapIdx ofLane).flatten

/-- The error that comes right after a record in its list. -/
def after? (inputs : List (List (Except ε α))) (placed : Placed α) : Option ε :=
  inputs[placed.input]?.bind fun lane => frontError? (lane.drop (placed.position + 1))

/-- The records of lists as they are merged. -/
def tagging (inputs : List (List (Except ε α))) : Tagging (Placed α) α ε :=
  ⟨record, input, after? inputs, inputs.length⟩

/-- The records of one list are placed from the front to the first error. -/
private theorem marks_mapIdx (inputs : List (List (Except ε α))) {index : Nat} {whole : List (Except ε α)}
    (at_ : inputs[index]? = some whole) {lane : List (Except ε α)} {position : Nat}
    (left : whole.drop position = lane) :
    (tagging inputs).Marks lane ((goods lane).mapIdx fun later record => ⟨record, index, position + later⟩) := by
  induction lane generalizing position with
  | nil => exact .ended
  | cons answer lane ih =>
    cases answer with
    | error error => exact .stopped
    | ok record =>
      have left' : whole.drop (position + 1) = lane := by rw [← List.tail_drop, left, List.tail_cons]
      have marked := ih left'
      simp only [Nat.add_assoc, Nat.add_comm 1] at marked
      rw [goods, List.mapIdx_cons]
      refine @Tagging.Marks.record _ _ _ (tagging inputs) ⟨record, index, position + 0⟩ _ _ ?_ marked
      simp only [tagging, after?, at_, Option.bind_some]
      rw [Nat.add_zero, left']

theorem marks_ofLane {inputs : List (List (Except ε α))} {index : Nat} {lane : List (Except ε α)}
    (at_ : inputs[index]? = some lane) : (tagging inputs).Marks lane (ofLane index lane) := by
  have marked := marks_mapIdx inputs at_ List.drop_zero
  simp only [Nat.zero_add] at marked
  exact marked

theorem input_of_mem_ofLane {index : Nat} {lane : List (Except ε α)} {placed : Placed α}
    (present : placed ∈ ofLane index lane) : placed.input = index := by
  obtain ⟨position, bound, rfl⟩ := List.mem_mapIdx.mp present
  rfl

/-- Places are compared by their lists first. -/
private theorem le_place {a b : Placed α} (before : a.input < b.input ∨ a.input = b.input ∧ a.position ≤ b.position) :
    Comparison.le (compareLex (compareOn input) (compareOn position)) a b := by
  simp only [Comparison.le, compareLex, compareOn]
  rcases before with less | ⟨same, within⟩
  · rw [Nat.compare_eq_lt.mpr less]
    rfl
  · rw [Nat.compare_eq_eq.mpr same]
    exact Nat.isLE_compare.mpr within

/-- List by list and position by position. -/
theorem ordered_ofInputs (inputs : List (List (Except ε α))) :
    Comparison.Ordered (compareLex (compareOn input) (compareOn position)) (ofInputs inputs) := by
  refine List.pairwise_flatten.mpr ⟨?_, ?_⟩
  · intro places present
    obtain ⟨index, bound, rfl⟩ := List.mem_mapIdx.mp present
    rw [List.pairwise_iff_getElem]
    intro i j bound' bound'' before
    apply le_place
    simp only [ofLane, List.getElem_mapIdx]
    exact .inr ⟨trivial, Nat.le_of_lt before⟩
  · rw [List.pairwise_iff_getElem]
    intro i j bound bound' before a present b present'
    rw [List.getElem_mapIdx] at present present'
    apply le_place
    rw [input_of_mem_ofLane present, input_of_mem_ofLane present']
    exact .inl before

variable {compare : Comparison α}

/-- The records of ordered lists have the records of the lists in stable order. -/
theorem covers_ofInputs [Std.TransCmp compare] {inputs : List (List (Except ε α))}
    (ordered : ∀ input ∈ inputs, compare.Ordered (goods input)) :
    (tagging inputs).Covers compare inputs (inputs.mapIdx ofLane) ((order compare).stableSort (ofInputs inputs)) := by
  refine ⟨List.length_mapIdx, rfl, ?_, ?_, ?_, Comparison.stableSort_compareLex (ordered_ofInputs inputs)⟩
  · intro index lane tags at_ found
    rw [List.getElem?_mapIdx, at_] at found
    cases found
    exact marks_ofLane at_
  · intro tags present
    obtain ⟨index, bound, rfl⟩ := List.mem_mapIdx.mp present
    have at_ := List.getElem?_eq_getElem bound
    refine (Comparison.ordered_map_iff _ _).mp ?_
    rw [(marks_ofLane at_).map_record]
    exact ordered _ (List.getElem_mem bound)
  · intro index tags found tag present
    rw [List.getElem?_mapIdx] at found
    obtain ⟨lane, -, rfl⟩ := Option.map_eq_some_iff.mp found
    exact input_of_mem_ofLane present

end Placed

/-! ## Answers to many requests -/

/-- Records up to the first that an error follows, and that error. -/
def Tagging.output (tagging : Tagging β α ε) : List β → List (Except ε α)
  | [] => []
  | tag :: tags =>
    .ok (tagging.record tag) ::
      match tagging.after? tag with
      | some error => [.error error]
      | none => tagging.output tags

/-- What a merge of lists gives in all. -/
def mergedAnswers (compare : Comparison α) (inputs : List (List (Except ε α))) : List (Except ε α) :=
  match inputs.findSome? frontError? with
  | some error => [.error error]
  | none => (Placed.tagging inputs).output ((Placed.order compare).stableSort (Placed.ofInputs inputs))

namespace Merger

/-- The answers to so many requests for the next record. -/
def answers (compare : Comparison α) (pull : γ → HostM (Option (Except ε α) × γ)) :
    Nat → Merger γ α ε → HostM (List (Option (Except ε α)))
  | 0, _ => return []
  | count + 1, merger => do
    let (answer, merger) ← merger.next compare pull
    return answer :: (← answers compare pull count merger)

variable {law : Nat → γ → Option (List (Except ε α)) → Disk → Prop} {tagging : Tagging β α ε} {compare : Comparison α}

/-- All that a merger still has to give. -/
inductive Gives (law : Nat → γ → Option (List (Except ε α)) → Disk → Prop) (tagging : Tagging β α ε)
    (compare : Comparison α) (merger : Merger γ α ε) (disk : Disk) : List (Except ε α) → Prop
  | silent : merger.failed = true → Gives law tagging compare merger disk []
  | broken {error : ε} : merger.failed = false → merger.pending = some error →
    Gives law tagging compare merger disk [.error error]
  /-- Nothing has been pulled yet, and an input opens with an error. -/
  | opening {lanes : List (List (Except ε α))} {error : ε} : merger.failed = false → merger.pending = none →
    merger.Stands law (fun _ => merger.seeded = true) lanes disk → merger.seeded = false →
      lanes.findSome? frontError? = some error → Gives law tagging compare merger disk [.error error]
  | onward {rest : List β} : merger.pending = none → merger.Poised law tagging compare rest disk →
    Gives law tagging compare merger disk (tagging.output rest)

section Running

variable [Std.TransCmp compare] {pull : γ → HostM (Option (Except ε α) × γ)} {effect : Nat → Disk → Disk → Prop}
  {merger : Merger γ α ε} {output : List (Except ε α)} {host : Host} (plays : Plays pull law effect)
include plays

/-- A merger gives the first of what it still has to give. -/
theorem Gives.next (gives : merger.Gives law tagging compare host.disk output) :
    Ensures (merger.next compare pull) host fun result later =>
      result.1 = output.head? ∧ result.2.Gives law tagging compare later.disk output.tail := by
  cases gives with
  | silent failed =>
    simp only [Merger.next, failed]
    exact ⟨rfl, .silent failed⟩
  | broken working pending =>
    simp only [Merger.next, working, pending]
    exact ⟨rfl, .silent rfl⟩
  | opening working quiet stands unseeded opens =>
    simp only [Merger.next, working, quiet]
    rw [if_neg Bool.false_ne_true, Ensures.bind_iff]
    apply (stands.seed plays).mono
    rintro ⟨error?, after⟩ later ⟨told, -, -⟩
    rw [unseeded, opens] at told
    obtain rfl : error? = some _ := told
    exact ⟨rfl, .silent rfl⟩
  | onward quiet poised =>
    apply (poised.next plays quiet).mono
    rintro ⟨answer, after⟩ later handed
    cases handed with
    | ended quiet' poised' => exact ⟨rfl, .onward quiet' poised'⟩
    | @record tag rest seeded pending poised' =>
      refine ⟨rfl, ?_⟩
      rw [Tagging.output, List.tail_cons]
      split
      · next error found => exact .broken poised'.working (pending.trans found)
      · next found => exact .onward (pending.trans found) poised'

/-- The answers are what there is to give, and nothing from then on. -/
theorem Gives.answers (gives : merger.Gives law tagging compare host.disk output) (count : Nat) :
    Ensures (merger.answers compare pull count) host fun answers _ =>
      answers = (List.range count).map (output[·]?) := by
  induction count generalizing merger output host with
  | zero => rfl
  | succ count ih =>
    simp only [Merger.answers]
    rw [Ensures.bind_iff]
    apply (gives.next plays).mono
    rintro ⟨answer, after⟩ later ⟨rfl, gives'⟩
    rw [Ensures.bind_iff]
    apply (ih gives').mono
    rintro answers last rfl
    change output.head? :: _ = _
    rw [List.range_succ_eq_map, List.map_cons, List.map_map, List.head?_eq_getElem?]
    congr 1
    exact List.map_congr_left fun index _ => by simp

end Running

/-! ## Lists -/

/-- A list of answers plays itself. -/
theorem plays_lists : Plays (pullList (α := α) (ε := ε)) (fun _ input lane? _ => input = lane?.getD [])
    fun _ _ _ => True where
  stable _ same _ := same
  pull {index input lane host} same := by
    obtain rfl : input = lane := same
    cases input with
    | nil => exact ⟨trivial, rfl, rfl⟩
    | cons answer answers => exact ⟨trivial, rfl, rfl⟩

/-- A merger of lists whose records are in order up to their first errors gives the records in order of merging,
up to the first error that follows one of them, or only an error that a list opens with. -/
theorem answers_lists [Std.TransCmp compare] {inputs : List (List (Except ε α))}
    (ordered : ∀ input ∈ inputs, compare.Ordered (goods input)) (count : Nat) (host : Host) :
    Ensures ((new inputs).answers compare pullList count) host fun answers _ =>
      answers = (List.range count).map ((mergedAnswers compare inputs)[·]?) := by
  let law (_ : Nat) (input : List (Except ε α)) (lane? : Option (List (Except ε α))) (_ : Disk) : Prop :=
    input = lane?.getD []
  have stands : (new inputs : Merger _ α ε).Stands law (fun _ => false = true) inputs host.disk := by
    refine (stands_new rfl fun index input lane found at_ => ?_).congr fun _ => by simp
    exact Option.some.inj (found.symm.trans at_)
  suffices gives : (new inputs).Gives law (Placed.tagging inputs) compare host.disk (mergedAnswers compare inputs) from
    gives.answers plays_lists count
  unfold mergedAnswers
  split
  · next opens => exact .opening rfl rfl stands rfl opens
  · next calm =>
    refine .onward rfl ⟨rfl, .nil, inputs, _, stands, fun _ => ?_, Placed.covers_ofInputs ordered⟩
    exact List.findSome?_eq_none_iff.mp calm

/-- Numbers to be merged by their tens: there are ties across lists and inside one, an empty list, and two errors. -/
def unevenLists : List (List (Except String Nat)) :=
  [[.ok 11, .ok 30, .error "cut", .ok 5], [.ok 12, .ok 21, .ok 20, .ok 40, .error "late"], []]

/-- The error of the first list is told after the last record before it, and the other is not reached. -/
theorem answers_lists_uneven :
    Ensures ((new unevenLists).answers (Comparison.byKey Ord.compare (· / 10)) pullList 7) (Host.fresh .empty)
      fun answers _ => answers = [some (.ok 11), some (.ok 12), some (.ok 21), some (.ok 20), some (.ok 30),
        some (.error "cut"), none] := by
  have sorted_eq : (Placed.order (Comparison.byKey Ord.compare (· / 10))).stableSort (Placed.ofInputs unevenLists) =
      [⟨11, 0, 0⟩, ⟨12, 1, 0⟩, ⟨21, 1, 1⟩, ⟨20, 1, 2⟩, ⟨30, 0, 1⟩, ⟨40, 1, 3⟩] := by
    simp +decide [Comparison.stableSort, List.mergeSort, Placed.ofInputs, Placed.ofLane, goods, unevenLists]
  refine (answers_lists ?_ 7 _).mono fun answers _ answers_eq => answers_eq.trans ?_
  · simp +decide [unevenLists, Comparison.Ordered, Comparison.le, Comparison.byKey]
  · have merged : mergedAnswers (Comparison.byKey Ord.compare (· / 10)) unevenLists =
        [.ok 11, .ok 12, .ok 21, .ok 20, .ok 30, .error "cut"] := by
      unfold mergedAnswers
      rw [sorted_eq]
      rfl
    rw [merged]
    rfl

end Merger

end SpillSort
