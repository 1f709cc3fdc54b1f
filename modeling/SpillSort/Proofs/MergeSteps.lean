import Mathlib.Data.List.Forall2
import SpillSort.Proofs.Ensures
import SpillSort.Proofs.Frontier

/-! # How a merge goes on

A lane is what one input still has to give: records, and errors among them. While an input is not due to be
pulled, the record in front of its lane is its head on the frontier, and the rest is in the input. So a merger
stands before its lanes, and handing out the least head moves it past the front of one lane.

Where the records of the lanes carry tags, such as where they come from, the tags of what is handed out are
those of the stable sort of all lanes, one after the other. The error that follows a record in its lane is told
right after it.
-/

namespace SpillSort

variable {γ α β ε : Type}

/-! ## Lanes -/

/-- The record in front of a lane, unless the lane is at its end or an error comes first. -/
def front : List (Except ε α) → List α
  | .ok record :: _ => [record]
  | _ => []

/-- The error in front of a lane. -/
def frontError? : List (Except ε α) → Option ε
  | .error error :: _ => some error
  | _ => none

/-- Inputs play their lanes: pulling one gives what is in front of its lane, and nothing that the lanes of other
inputs depend on changes. An input that was pulled at the end of its lane is left with no lane at all. -/
structure Plays (pull : γ → HostM (Option (Except ε α) × γ))
    (law : Nat → γ → Option (List (Except ε α)) → Disk → Prop) (effect : Nat → Disk → Disk → Prop) : Prop where
  stable : ∀ {index other input lane? before after}, other ≠ index → law other input lane? before →
    effect index before after → law other input lane? after
  pull : ∀ {index input lane} {host : Host}, law index input (some lane) host.disk →
    Ensures (pull input) host fun result later =>
      effect index host.disk later.disk ∧ result.1 = lane.head? ∧ law index result.2 lane.tail? later.disk

/-! ## Tagged lanes -/

/-- What is known of the records of lanes by their tags: the record itself, the input that it comes from, and the
error that follows it there. -/
structure Tagging (β α ε : Type) where
  record : β → α
  input : β → Nat
  after? : β → Option ε
  /-- How many inputs there are. -/
  width : Nat

/-- The tags of the records in a lane up to its first error. -/
inductive Tagging.Marks (tagging : Tagging β α ε) : List (Except ε α) → List β → Prop
  | ended : Marks tagging [] []
  | stopped {error : ε} {lane : List (Except ε α)} : Marks tagging (.error error :: lane) []
  | record {tag : β} {lane : List (Except ε α)} {tags : List β} :
    tagging.after? tag = frontError? lane → Marks tagging lane tags →
      Marks tagging (.ok (tagging.record tag) :: lane) (tag :: tags)

variable {tagging : Tagging β α ε} {lanes : List (List (Except ε α))}

/-- Records that no error follows make up a lane. -/
theorem Tagging.marks_map (calm : ∀ tag, tagging.after? tag = none) (tags : List β) :
    tagging.Marks ((tags.map tagging.record).map .ok) tags := by
  induction tags with
  | nil => exact .ended
  | cons tag tags ih =>
    refine .record ?_ ih
    rw [calm tag]
    cases tags <;> rfl

theorem Tagging.Marks.front_eq {lane : List (Except ε α)} {tags : List β} (marks : tagging.Marks lane tags) :
    front lane = (tags.take 1).map tagging.record := by cases marks <;> rfl

/-- The tags of ordered lanes, and those of all lanes in stable order. -/
structure Tagging.Covers (tagging : Tagging β α ε) (compare : Comparison α) (lanes : List (List (Except ε α)))
    (tagged : List (List β)) (rest : List β) : Prop where
  length_eq : tagged.length = lanes.length
  width_eq : lanes.length = tagging.width
  marks : ∀ (index : Nat) lane tags, lanes[index]? = some lane → tagged[index]? = some tags → tagging.Marks lane tags
  ordered : ∀ tags ∈ tagged, (compare.byKey tagging.record).Ordered tags
  apart : ∀ (index : Nat) tags, tagged[index]? = some tags → ∀ tag ∈ tags, tagging.input tag = index
  rest_eq : rest = (compare.byKey tagging.record).stableSort tagged.flatten

section Covering

variable {compare : Comparison α} {tagged : List (List β)} {rest : List β}

/-- An input has a tag still to come if there is a record in front of its lane. -/
theorem Tagging.Covers.exists_iff (covers : tagging.Covers compare lanes tagged rest) {index : Nat}
    {lane : List (Except ε α)} (at_ : lanes[index]? = some lane) :
    (∃ tag ∈ rest, tagging.input tag = index) ↔ front lane ≠ [] := by
  have bound : index < tagged.length := covers.length_eq ▸ (List.getElem?_eq_some_iff.mp at_).1
  obtain ⟨tags, found⟩ : ∃ tags, tagged[index]? = some tags := ⟨_, List.getElem?_eq_getElem bound⟩
  have front_eq := (covers.marks index lane tags at_ found).front_eq
  have among (tag : β) : tag ∈ rest ↔ ∃ tags ∈ tagged, tag ∈ tags := by
    rw [covers.rest_eq, (Comparison.perm_stableSort _ _).mem_iff, List.mem_flatten]
  constructor
  · rintro ⟨tag, present, rfl⟩
    obtain ⟨tags', inside, member⟩ := (among tag).mp present
    obtain ⟨other, found'⟩ := List.getElem?_of_mem inside
    rw [covers.apart other tags' found' tag member] at found
    obtain rfl : tags = tags' := Option.some.inj (found.symm.trans found')
    rw [front_eq]
    cases tags with
    | nil => cases member
    | cons first tags => exact List.cons_ne_nil _ _
  · intro some
    rw [front_eq] at some
    cases tags with
    | nil => exact absurd rfl some
    | cons tag tags =>
      exact ⟨tag, (among tag).mpr ⟨_, List.mem_of_getElem? found, List.mem_cons_self⟩,
        covers.apart index _ found tag List.mem_cons_self⟩

/-- With nothing in front of any lane there are no tags left. -/
theorem Tagging.Covers.eq_nil (covers : tagging.Covers compare lanes tagged rest)
    (none_left : ∀ lane ∈ lanes, front lane = []) : rest = [] := by
  rw [covers.rest_eq, Comparison.stableSort_eq_nil_iff, List.flatten_eq_nil_iff]
  intro tags present
  obtain ⟨index, found⟩ := List.getElem?_of_mem present
  have bound : index < lanes.length := covers.length_eq ▸ (List.getElem?_eq_some_iff.mp found).1
  have front_eq := (covers.marks index _ tags (List.getElem?_eq_getElem bound) found).front_eq
  rw [none_left _ (List.getElem_mem bound)] at front_eq
  cases tags with
  | nil => rfl
  | cons tag tags => cases front_eq

/-- The record before the fronts of all other lanes has the first of the tags. -/
theorem Tagging.Covers.pop [Std.TransCmp compare] (covers : tagging.Covers compare lanes tagged rest) {index : Nat}
    {record : α} {lane : List (Except ε α)} (at_ : lanes[index]? = some (.ok record :: lane))
    (least : ∀ other record' lane', lanes[other]? = some (.ok record' :: lane') →
      Head.before compare ⟨record, index⟩ ⟨record', other⟩) :
    ∃ tag tags rest', rest = tag :: rest' ∧ tagging.record tag = record ∧ tagging.after? tag = frontError? lane ∧
      tagging.Covers compare (lanes.set index lane) (tagged.set index tags) rest' := by
  have bound := (List.getElem?_eq_some_iff.mp at_).1
  have bound' : index < tagged.length := covers.length_eq ▸ bound
  have found := List.getElem?_eq_getElem bound'
  have marked := covers.marks index _ _ at_ found
  generalize tagged[index] = tags at found marked
  obtain _ | _ | @⟨tag, lane, tags, after_eq, marked'⟩ := marked
  have ordered := covers.ordered _ (List.mem_of_getElem? found)
  have first : ∀ other front tail, tagged[other]? = some (front :: tail) →
      Head.before (compare.byKey tagging.record) ⟨tag, index⟩ ⟨front, other⟩ := by
    intro other tag' tags' found'
    have bound'' : other < lanes.length := covers.length_eq ▸ (List.getElem?_eq_some_iff.mp found').1
    have at_' := List.getElem?_eq_getElem bound''
    have marked'' := covers.marks other _ _ at_' found'
    generalize lanes[other] = lane' at at_' marked''
    cases marked'' with
    | record => exact least other _ _ at_'
  refine ⟨tag, tags, _, covers.rest_eq.trans (stableSort_lanes covers.ordered found first), rfl, after_eq,
    by simpa using covers.length_eq, by simpa using covers.width_eq, ?_, ?_, ?_, rfl⟩
  · intro other lane' tags' at_' found'
    by_cases same : other = index
    · subst same
      rw [List.getElem?_set_self bound] at at_'
      rw [List.getElem?_set_self bound'] at found'
      cases at_'
      cases found'
      exact marked'
    · rw [List.getElem?_set_ne (Ne.symm same)] at at_' found'
      exact covers.marks other lane' tags' at_' found'
  · intro tags' present
    rcases List.mem_or_eq_of_mem_set present with old | rfl
    · exact covers.ordered tags' old
    · exact (List.pairwise_cons.mp ordered).2
  · intro other tags' found' tag' member
    by_cases same : other = index
    · subst same
      rw [List.getElem?_set_self bound'] at found'
      cases found'
      exact covers.apart other _ found tag' (List.mem_cons_of_mem _ member)
    · rw [List.getElem?_set_ne (Ne.symm same)] at found'
      exact covers.apart other tags' found' tag' member

end Covering

namespace Merger

/-! ## The order of the frontier -/

section Order

variable {compare : Comparison α} [Std.TransCmp compare] {pull : γ → HostM (Option (Except ε α) × γ)}

/-- The least head comes first. -/
def InOrder (compare : Comparison α) (merger : Merger γ α ε) : Prop :=
  merger.heads.Pairwise fun a b => a.before compare b

theorem refill_inOrder {merger : Merger γ α ε} (ordered : merger.InOrder compare) (index : Nat) (host : Host) :
    Ensures (merger.refill compare pull index) host fun result _ => result.2.InOrder compare := by
  simp only [refill]
  split
  · exact ordered
  · rw [Ensures.bind_iff]
    apply Ensures.intro
    rintro ⟨answer, input⟩ later -
    match answer with
    | none => exact ordered
    | some (.error error) => exact ordered
    | some (.ok record) => exact Head.pairwise_insert ordered

theorem refillAll_inOrder {merger : Merger γ α ε} (ordered : merger.InOrder compare) (indices : List Nat)
    (host : Host) :
    Ensures (merger.refillAll compare pull indices) host fun result _ => result.2.InOrder compare := by
  induction indices generalizing merger host with
  | nil => exact ordered
  | cons index indices ih =>
    simp only [refillAll]
    rw [Ensures.bind_iff]
    apply (refill_inOrder ordered index host).mono
    rintro ⟨error?, merger'⟩ later ordered'
    cases error? with
    | some error => exact ordered'
    | none => exact ih ordered' later

theorem seed_inOrder {merger : Merger γ α ε} (ordered : merger.InOrder compare) (host : Host) :
    Ensures (merger.seed compare pull) host fun result _ => result.2.InOrder compare := by
  simp only [seed]
  split
  · exact ordered
  · have ordered' : { merger with seeded := true }.InOrder compare := ordered
    exact refillAll_inOrder ordered' _ host

theorem takeHead_inOrder {merger : Merger γ α ε} (ordered : merger.InOrder compare) (host : Host) :
    Ensures (merger.takeHead compare pull) host fun result _ => result.2.InOrder compare := by
  simp only [takeHead]
  split
  · exact ordered
  · next head heads found =>
    unfold InOrder at ordered
    rw [found] at ordered
    have ordered' : { merger with heads }.InOrder compare := (List.pairwise_cons.mp ordered).2
    rw [Ensures.bind_iff]
    exact (refill_inOrder ordered' head.input host).mono fun _ _ kept => kept

end Order

/-! ## Standing before lanes -/

variable {law : Nat → γ → Option (List (Except ε α)) → Disk → Prop} {asked asked' : Nat → Prop}
  {lanes : List (List (Except ε α))} {disk : Disk} {merger : Merger γ α ε} {tagging : Tagging β α ε}

/-- The frontier and the inputs make up the lanes. Of an input that was asked the front of the lane is on the
frontier, or has been told if it is an error; the lane of an input that is due is all in the input. -/
structure Stands (law : Nat → γ → Option (List (Except ε α)) → Disk → Prop) (asked : Nat → Prop)
    (lanes : List (List (Except ε α))) (merger : Merger γ α ε) (disk : Disk) : Prop where
  length_eq : merger.inputs.length = lanes.length
  distinct : (merger.heads.map Head.input).Nodup
  known : ∀ head ∈ merger.heads, asked head.input ∧ head.input < lanes.length
  due : ∀ index input lane, merger.inputs[index]? = some input → lanes[index]? = some lane → ¬ asked index →
    law index input (some lane) disk
  fronted : ∀ index input lane, merger.inputs[index]? = some input → lanes[index]? = some lane → asked index →
    held merger.heads index = front lane ∧ law index input lane.tail? disk

theorem Stands.congr (stands : merger.Stands law asked lanes disk) (same : ∀ index, asked' index ↔ asked index) :
    merger.Stands law asked' lanes disk := by
  obtain rfl : asked' = asked := funext fun index => propext (same index)
  exact stands

/-- An input that is due has no head. -/
theorem Stands.absent (stands : merger.Stands law asked lanes disk) {index : Nat} (due : ¬ asked index) :
    index ∉ merger.heads.map Head.input := by
  intro present
  obtain ⟨head, among, rfl⟩ := List.mem_map.mp present
  exact due (stands.known head among).1

/-- An input has a head if there is a record in front of its lane. -/
theorem Stands.mem_iff (stands : merger.Stands law asked lanes disk) {index : Nat} {lane : List (Except ε α)}
    (found : lanes[index]? = some lane) (pulled : asked index) :
    index ∈ merger.heads.map Head.input ↔ front lane ≠ [] := by
  have bound : index < merger.inputs.length := stands.length_eq ▸ (List.getElem?_eq_some_iff.mp found).1
  rw [← (stands.fronted index _ lane (List.getElem?_eq_getElem bound) found pulled).1]
  constructor
  · intro present
    obtain ⟨head, among, rfl⟩ := List.mem_map.mp present
    rw [held_of_mem stands.distinct among]
    exact List.cons_ne_nil _ _
  · exact fun some => Classical.byContradiction fun absent => some (held_eq_nil absent)

theorem stands_new {inputs : List γ} (length_eq : inputs.length = lanes.length)
    (played : ∀ index input lane, inputs[index]? = some input → lanes[index]? = some lane →
      law index input (some lane) disk) :
    (new inputs : Merger γ α ε).Stands law (fun _ => False) lanes disk :=
  ⟨length_eq, .nil, nofun, fun index input lane found at_ _ => played index input lane found at_, nofun⟩

section Pulling

variable {compare : Comparison α} {pull : γ → HostM (Option (Except ε α) × γ)} {effect : Nat → Disk → Disk → Prop}
  (plays : Plays pull law effect)
include plays

/-- An input that was due has been asked, and its front is on the frontier. -/
private theorem Stands.answered (stands : merger.Stands law asked lanes disk) {after : Disk} {index : Nat}
    {input : γ} {lane : List (Except ε α)} {heads : List (Head α)} (changed : effect index disk after)
    (at_ : lanes[index]? = some lane) (holds : law index input lane.tail? after)
    (distinct : (heads.map Head.input).Nodup)
    (known : ∀ head ∈ heads, head ∈ merger.heads ∨ head.input = index) (mine : held heads index = front lane)
    (others : ∀ other, other ≠ index → held heads other = held merger.heads other) :
    { merger with inputs := merger.inputs.set index input, heads }.Stands law
      (fun other => asked other ∨ other = index) lanes after := by
  have bound := (List.getElem?_eq_some_iff.mp at_).1
  refine ⟨by simpa using stands.length_eq, distinct, ?_, ?_, ?_⟩
  · intro head present
    rcases known head present with old | new
    · exact ⟨.inl (stands.known head old).1, (stands.known head old).2⟩
    · exact ⟨.inr new, new ▸ bound⟩
  · intro other input' lane' found at_' notAsked
    rw [not_or] at notAsked
    rw [List.getElem?_set_ne (Ne.symm notAsked.2)] at found
    exact plays.stable notAsked.2 (stands.due other input' lane' found at_' notAsked.1) changed
  · intro other input' lane' found at_' pulled
    by_cases same : other = index
    · subst same
      rw [List.getElem?_set_self (stands.length_eq ▸ bound)] at found
      cases found
      cases at_.symm.trans at_'
      exact ⟨mine, holds⟩
    · rw [List.getElem?_set_ne (Ne.symm same)] at found
      obtain ⟨front_eq, rest⟩ := stands.fronted other input' lane' found at_' (pulled.resolve_right same)
      exact ⟨(others other same).trans front_eq, plays.stable same rest changed⟩

/-- Asking an input that is due puts the front of its lane on the frontier, or tells the error there. -/
theorem Stands.refill {index : Nat} {lane : List (Except ε α)} {host : Host}
    (stands : merger.Stands law asked lanes host.disk) (due : ¬ asked index) (at_ : lanes[index]? = some lane) :
    Ensures (merger.refill compare pull index) host fun result later =>
      result.1 = frontError? lane ∧ result.2.Stands law (fun other => asked other ∨ other = index) lanes later.disk ∧
        result.2 = { merger with inputs := result.2.inputs, heads := result.2.heads } := by
  have bound : index < merger.inputs.length := stands.length_eq ▸ (List.getElem?_eq_some_iff.mp at_).1
  have absent := stands.absent due
  have found := List.getElem?_eq_getElem bound
  simp only [Merger.refill, found]
  rw [Ensures.bind_iff]
  apply (plays.pull (stands.due index _ lane found at_ due)).mono
  rintro ⟨answer, input⟩ later ⟨changed, rfl, holds⟩
  match lane with
  | [] =>
    exact ⟨rfl, stands.answered plays changed at_ holds stands.distinct (fun _ => .inl) (held_eq_nil absent)
      fun _ _ => rfl, rfl⟩
  | .error error :: lane =>
    exact ⟨rfl, stands.answered plays changed at_ holds stands.distinct (fun _ => .inl) (held_eq_nil absent)
      fun _ _ => rfl, rfl⟩
  | .ok record :: lane =>
    have perm := Head.perm_insert compare ⟨record, index⟩ merger.heads
    refine ⟨rfl, stands.answered plays changed at_ holds ?_ ?_ (held_insert_self absent record) ?_, rfl⟩
    · exact (perm.map Head.input).nodup_iff.mpr (List.nodup_cons.mpr ⟨absent, stands.distinct⟩)
    · intro head present
      rcases List.mem_cons.mp (perm.mem_iff.mp present) with rfl | old
      · exact .inr rfl
      · exact .inl old
    · exact fun other differ => held_insert_of_ne (Ne.symm differ) merger.heads

/-- Asking some inputs tells the first error that is in front of their lanes, in the order they are asked. -/
theorem Stands.refillAll {indices : List Nat} {host : Host} (stands : merger.Stands law asked lanes host.disk)
    (due : ∀ index ∈ indices, ¬ asked index ∧ index < lanes.length) (once : indices.Nodup) :
    Ensures (merger.refillAll compare pull indices) host fun result later =>
      result.1 = indices.findSome? (fun index => lanes[index]?.bind frontError?) ∧
        result.2 = { merger with inputs := result.2.inputs, heads := result.2.heads } ∧
        (result.1 = none → result.2.Stands law (fun index => asked index ∨ index ∈ indices) lanes later.disk) := by
  induction indices generalizing merger asked host with
  | nil => exact ⟨rfl, rfl, fun _ => stands.congr fun index => by simp⟩
  | cons index indices ih =>
    obtain ⟨notLater, once'⟩ := List.nodup_cons.mp once
    obtain ⟨notAsked, bound⟩ := due index List.mem_cons_self
    have at_ := List.getElem?_eq_getElem bound
    simp only [Merger.refillAll]
    rw [Ensures.bind_iff]
    apply (stands.refill plays notAsked at_).mono
    rintro ⟨error?, merger'⟩ later ⟨rfl, stands', fields⟩
    cases told : frontError? lanes[index] with
    | some error =>
      refine ⟨?_, fields, nofun⟩
      rw [List.findSome?_cons, at_, Option.bind_some, told]
      rfl
    | none =>
      dsimp only at fields ⊢
      refine (ih stands' ?_ once').mono ?_
      · intro other present
        obtain ⟨notAsked', bound'⟩ := due other (List.mem_cons_of_mem _ present)
        exact ⟨not_or.mpr ⟨notAsked', fun same => notLater (same ▸ present)⟩, bound'⟩
      · rintro ⟨error?, last⟩ final ⟨rfl, fields', stands''⟩
        refine ⟨?_, ?_, ?_⟩
        · rw [List.findSome?_cons, at_, Option.bind_some, told]
        · dsimp only at fields' ⊢
          rw [fields', fields]
        · exact fun quiet => (stands'' quiet).congr fun other => by simp [or_assoc]

omit plays in
/-- The least head is the record in front of its lane. -/
theorem Stands.front_of_mem (stands : merger.Stands law asked lanes disk) {head : Head α} (present : head ∈ merger.heads) :
    ∃ lane, lanes[head.input]? = some (.ok head.record :: lane) := by
  obtain ⟨pulled, bound⟩ := stands.known head present
  have bound' : head.input < merger.inputs.length := stands.length_eq ▸ bound
  have at_ := List.getElem?_eq_getElem bound
  have front_eq := (stands.fronted head.input _ _ (List.getElem?_eq_getElem bound') at_ pulled).1
  rw [held_of_mem stands.distinct present] at front_eq
  generalize lanes[head.input] = lane at at_ front_eq
  match lane with
  | .ok record :: lane =>
    obtain ⟨rfl, -⟩ := List.cons.inj front_eq
    exact ⟨lane, at_⟩

omit plays in
/-- Without its least head a merger stands before what follows it in its lane, and the input there is due. -/
private theorem Stands.pop (stands : merger.Stands law asked lanes disk) {head : Head α} {heads : List (Head α)}
    {lane : List (Except ε α)} (found : merger.heads = head :: heads)
    (at_ : lanes[head.input]? = some (.ok head.record :: lane)) :
    { merger with heads }.Stands law (fun index => asked index ∧ index ≠ head.input) (lanes.set head.input lane)
      disk := by
  have bound := (List.getElem?_eq_some_iff.mp at_).1
  have distinct := found ▸ stands.distinct
  obtain ⟨absent, distinct'⟩ := List.nodup_cons.mp distinct
  have pulled : asked head.input := (stands.known head (found ▸ List.mem_cons_self)).1
  refine ⟨by simpa using stands.length_eq, distinct', ?_, ?_, ?_⟩
  · intro other present
    obtain ⟨pulled', bound'⟩ := stands.known other (found ▸ List.mem_cons_of_mem _ present)
    refine ⟨⟨pulled', fun same => absent (same ▸ List.mem_map_of_mem present)⟩, ?_⟩
    rw [List.length_set]
    exact bound'
  · intro index input lane' found' at_' notAsked
    by_cases same : index = head.input
    · subst same
      rw [List.getElem?_set_self bound] at at_'
      cases at_'
      exact (stands.fronted head.input input _ found' at_ pulled).2
    · rw [List.getElem?_set_ne (Ne.symm same)] at at_'
      exact stands.due index input lane' found' at_' fun pulled' => notAsked ⟨pulled', same⟩
  · rintro index input lane' found' at_' ⟨pulled', differ⟩
    rw [List.getElem?_set_ne (Ne.symm differ)] at at_'
    obtain ⟨front_eq, rest⟩ := stands.fronted index input lane' found' at_' pulled'
    rw [found, held_cons_of_ne (Ne.symm differ)] at front_eq
    exact ⟨front_eq, rest⟩

/-- Handing out the least head moves past the front of its lane. An error that follows it there waits. -/
theorem Stands.takeHead {host : Host} (stands : merger.Stands law (fun _ => True) lanes host.disk) {head : Head α}
    {heads : List (Head α)} (found : merger.heads = head :: heads) :
    Ensures (merger.takeHead compare pull) host fun result later => result.1 = some (.ok head.record) ∧
      ∃ lane, lanes[head.input]? = some (.ok head.record :: lane) ∧
        result.2.Stands law (fun _ => True) (lanes.set head.input lane) later.disk ∧
        result.2 = { merger with
          inputs := result.2.inputs, heads := result.2.heads, pending := frontError? lane } := by
  obtain ⟨lane, at_⟩ := stands.front_of_mem (found ▸ List.mem_cons_self)
  have bound := (List.getElem?_eq_some_iff.mp at_).1
  simp only [Merger.takeHead, found]
  rw [Ensures.bind_iff]
  apply ((stands.pop found at_).refill plays (by simp) (List.getElem?_set_self bound)).mono
  rintro ⟨error?, merger'⟩ later ⟨rfl, stands', fields⟩
  dsimp only at fields
  have stands'' : merger'.Stands law (fun _ => True) (lanes.set head.input lane) later.disk :=
    stands'.congr fun index => by simpa using (Classical.em _).symm
  refine ⟨rfl, lane, at_, ⟨stands''.length_eq, stands''.distinct, stands''.known, stands''.due, stands''.fronted⟩, ?_⟩
  exact congrArg (fun after : Merger γ α ε => { after with pending := frontError? lane }) fields

end Pulling

/-- Looking through the places of a list is looking through the list. -/
private theorem findSome?_range_getElem? {δ : Type} (list : List δ) (f : δ → Option ε) :
    (List.range list.length).findSome? (fun index => list[index]?.bind f) = list.findSome? f := by
  induction list with
  | nil => rfl
  | cons first list ih =>
    rw [List.length_cons, List.range_succ_eq_map, List.findSome?_cons, List.findSome?_map, List.findSome?_cons, ← ih]
    rfl

/-! ## Merging tagged lanes -/

/-- A merger that has not failed, before the records with these tags. -/
structure Poised (law : Nat → γ → Option (List (Except ε α)) → Disk → Prop) (tagging : Tagging β α ε)
    (compare : Comparison α) (merger : Merger γ α ε) (rest : List β) (disk : Disk) : Prop where
  working : merger.failed = false
  inOrder : merger.InOrder compare
  made : ∃ lanes tagged, merger.Stands law (fun _ => merger.seeded = true) lanes disk ∧
    (merger.pending = none → ∀ lane ∈ lanes, frontError? lane = none) ∧ tagging.Covers compare lanes tagged rest

/-- The answer to a request for the next record, and the merger after it: the record of the first tag, or nothing if
there are no tags left. -/
inductive Handed (law : Nat → γ → Option (List (Except ε α)) → Disk → Prop) (tagging : Tagging β α ε)
    (compare : Comparison α) (merger : Merger γ α ε) (disk : Disk) : List β → Option (Except ε α) → Prop
  | ended : merger.pending = none → merger.Poised law tagging compare [] disk →
    Handed law tagging compare merger disk [] none
  | record {tag : β} {rest : List β} : merger.seeded = true → merger.pending = tagging.after? tag →
    merger.Poised law tagging compare rest disk →
      Handed law tagging compare merger disk (tag :: rest) (some (.ok (tagging.record tag)))

/-- Every input has a lane. -/
theorem Stands.exists_lane (stands : merger.Stands law asked lanes disk) {index : Nat} (known : index < lanes.length) :
    ∃ input lane, merger.inputs[index]? = some input ∧ lanes[index]? = some lane :=
  ⟨_, _, List.getElem?_eq_getElem (stands.length_eq ▸ known), List.getElem?_eq_getElem known⟩

section Lanes

variable {compare : Comparison α} {rest : List β} {index : Nat}

/-- Of an input that was asked a record is still to come, unless it was asked at the end of its lane. -/
theorem Poised.lane_iff (poised : merger.Poised law tagging compare rest disk) (seeded : merger.seeded = true)
    (quiet : merger.pending = none) (known : index < tagging.width) :
    ∃ input lane?, law index input lane? disk ∧ (lane? ≠ none ↔ ∃ tag ∈ rest, tagging.input tag = index) := by
  obtain ⟨lanes, tagged, stands, calm, covers⟩ := poised.made
  obtain ⟨input, lane, found, at_⟩ := stands.exists_lane (covers.width_eq ▸ known)
  refine ⟨input, _, (stands.fronted index input lane found at_ seeded).2, ?_⟩
  rw [covers.exists_iff at_]
  have noError := calm quiet lane (List.mem_of_getElem? at_)
  cases lane with
  | nil => simp [front]
  | cons answer lane =>
    cases answer with
    | error error => cases noError
    | ok record => simp [front]

/-- An input that was not asked has its whole lane before it. -/
theorem Poised.lane_of_unseeded (poised : merger.Poised law tagging compare rest disk) (unseeded : merger.seeded = false)
    (known : index < tagging.width) : ∃ input lane, law index input (some lane) disk := by
  obtain ⟨lanes, tagged, stands, -, covers⟩ := poised.made
  obtain ⟨input, lane, found, at_⟩ := stands.exists_lane (covers.width_eq ▸ known)
  exact ⟨input, lane, stands.due index input lane found at_ (by simp [unseeded])⟩

end Lanes

section Merging

variable {compare : Comparison α} {pull : γ → HostM (Option (Except ε α) × γ)}
  {effect : Nat → Disk → Disk → Prop} {rest : List β} (plays : Plays pull law effect)
include plays

/-- Before the first record every input is asked once. The error of the first that opens with one is told. -/
theorem Stands.seed {host : Host} (stands : merger.Stands law (fun _ => merger.seeded = true) lanes host.disk) :
    Ensures (merger.seed compare pull) host fun result later =>
      result.1 = (if merger.seeded then none else lanes.findSome? frontError?) ∧
        result.2 = { merger with inputs := result.2.inputs, heads := result.2.heads, seeded := true } ∧
        (result.1 = none → result.2.Stands law (fun _ => True) lanes later.disk) := by
  simp only [Merger.seed]
  split
  · next seeded =>
    refine ⟨rfl, ?_, fun _ => stands.congr fun _ => (iff_true_intro seeded).symm⟩
    change merger = { merger with seeded := true }
    rw [← seeded]
  · next unseeded =>
    have same : merger.Stands law (fun _ => False) lanes host.disk :=
      stands.congr fun _ => (iff_false_intro unseeded).symm
    have stands' : { merger with seeded := true }.Stands law (fun _ => False) lanes host.disk :=
      ⟨same.length_eq, same.distinct, same.known, same.due, same.fronted⟩
    refine (stands'.refillAll plays ?_ List.nodup_range).mono ?_
    · exact fun index present => ⟨not_false, stands.length_eq ▸ List.mem_range.mp present⟩
    · rintro ⟨error?, after⟩ later ⟨told, fields, stands''⟩
      refine ⟨told.trans ?_, fields, fun quiet => ?_⟩
      · rw [stands.length_eq]
        exact findSome?_range_getElem? lanes frontError?
      · refine ⟨(stands'' quiet).length_eq, (stands'' quiet).distinct, ?_, nofun, ?_⟩
        · exact fun head present => ⟨trivial, ((stands'' quiet).known head present).2⟩
        · intro index input lane found at_ _
          refine (stands'' quiet).fronted index input lane found at_ (.inr ?_)
          exact List.mem_range.mpr (stands.length_eq ▸ (List.getElem?_eq_some_iff.mp at_).1)

variable [Std.TransCmp compare]

/-- The least head has the first tag. -/
theorem Poised.takeHead {host : Host} (poised : merger.Poised law tagging compare rest host.disk)
    (seeded : merger.seeded = true) (quiet : merger.pending = none) :
    Ensures (merger.takeHead compare pull) host fun result later =>
      result.2.Handed law tagging compare later.disk rest result.1 := by
  obtain ⟨working, ordered, lanes, tagged, stands, calm, covers⟩ := id poised
  have stands' : merger.Stands law (fun _ => True) lanes host.disk := stands.congr fun _ => by simp [seeded]
  cases found : merger.heads with
  | nil =>
    have none_left : ∀ lane ∈ lanes, front lane = [] := by
      intro lane present
      obtain ⟨index, at_⟩ := List.getElem?_of_mem present
      refine Classical.byContradiction fun some => ?_
      have there := (stands'.mem_iff at_ trivial).mpr some
      rw [found] at there
      cases there
    obtain rfl := covers.eq_nil none_left
    simp only [Merger.takeHead, found]
    exact .ended quiet poised
  | cons head heads =>
    have least : ∀ other record lane, lanes[other]? = some (.ok record :: lane) →
        head.before compare ⟨record, other⟩ := by
      intro other record lane at_
      obtain ⟨head', present, rfl⟩ := List.mem_map.mp ((stands'.mem_iff at_ trivial).mpr (List.cons_ne_nil _ _))
      obtain ⟨lane', at_'⟩ := stands'.front_of_mem present
      cases at_.symm.trans at_'
      unfold InOrder at ordered
      rw [found] at ordered present
      rcases List.mem_cons.mp present with rfl | later
      · exact (Head.before_total head' head').elim id id
      · exact List.rel_of_pairwise_cons ordered later
    apply ((stands'.takeHead plays found).and (takeHead_inOrder ordered host)).mono
    rintro ⟨answer, after⟩ later ⟨⟨rfl, lane, at_, stands'', fields⟩, ordered'⟩
    obtain ⟨tag, tags, rest', rfl, record_eq, after_eq, covers'⟩ := covers.pop at_ least
    dsimp only at fields
    have seeded' : after.seeded = true := by
      rw [fields]
      exact seeded
    have working' : after.failed = false := by
      rw [fields]
      exact working
    have pending_eq : after.pending = frontError? lane := by rw [fields]
    rw [← record_eq]
    refine .record seeded' (pending_eq.trans after_eq.symm) ⟨working', ordered', _, _, ?_, ?_, covers'⟩
    · exact stands''.congr fun _ => by simp [seeded']
    · intro quiet' other present
      rcases List.mem_or_eq_of_mem_set present with old | rfl
      · exact calm quiet other old
      · exact pending_eq.symm.trans quiet'

/-- A merger gives the records of its tags one after the other. -/
theorem Poised.next {host : Host} (poised : merger.Poised law tagging compare rest host.disk)
    (quiet : merger.pending = none) :
    Ensures (merger.next compare pull) host fun result later =>
      result.2.Handed law tagging compare later.disk rest result.1 := by
  obtain ⟨working, ordered, lanes, tagged, stands, calm, covers⟩ := poised
  simp only [Merger.next, working, quiet]
  rw [if_neg nofun, Ensures.bind_iff]
  apply ((stands.seed plays).and (seed_inOrder ordered host)).mono
  rintro ⟨error?, after⟩ later ⟨⟨told, fields, stands'⟩, ordered'⟩
  have unfailing : error? = none := by
    refine told.trans ?_
    split
    · rfl
    · exact List.findSome?_eq_none_iff.mpr (calm quiet)
  subst unfailing
  dsimp only at fields ⊢
  have seeded' : after.seeded = true := by rw [fields]
  have working' : after.failed = false := by
    rw [fields]
    exact working
  have quiet' : after.pending = none := by
    rw [fields]
    exact quiet
  refine Poised.takeHead plays ⟨working', ordered', lanes, tagged, ?_, fun _ => calm quiet, covers⟩ seeded' quiet'
  exact (stands' rfl).congr fun _ => by simp [seeded']

end Merging

end Merger

end SpillSort
