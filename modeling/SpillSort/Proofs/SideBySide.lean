import SpillSort.Proofs.TwinSorting
import SpillSort.Sorter.Pool

/-! # Streams side by side do not meet

Streams of one sorter share its options, the place of their directories and the names of their files, and nothing
else. Whatever is asked of them, in any order, each has a directory that no other has, and works in it alone. So
each answers as it does when there are no others, also where it fails, and finds its files as it left them.
-/

namespace SpillSort

variable {σ α ε : Type} {host host' : Host}

/-! ## One stream -/

namespace Slot

variable {slot slot' : Slot σ α}

/-- What a stream that there is has on the temporary store can be found and removed. -/
inductive Kept (disk : Disk) : Slot σ α → Prop
  | waiting (job : SortJob σ α) : Kept disk (.waiting job)
  | opened {stream : SortedStream σ α} : stream.Kept disk → Kept disk (.opened stream)
  | gone : Kept disk .gone

/-- A directory that a stream has is there. -/
theorem Kept.present {disk : Disk} (kept : slot.Kept disk) {directory : Nat} (mine : slot.directory? = some directory) :
    disk.hasDirectory directory := by
  cases kept with
  | waiting job => cases mine
  | opened kept => exact kept.removable.present directory mine
  | gone => cases mine

theorem Kept.stable {own : Nat → Prop} {before after : Disk} (kept : slot.Kept before)
    (within : before.Within own after) (sound : after.Sound)
    (apart : ∀ directory, slot.directory? = some directory → ¬ own directory) : slot.Kept after := by
  cases kept with
  | waiting job => exact .waiting job
  | opened kept => exact .opened (kept.stable within sound apart)
  | gone => exact .gone

/-- A request touches the directory of the stream only, or makes it. -/
structure Confined (before after : Slot σ α) (disk disk' : Disk) : Prop where
  kept : after.Kept disk'
  sound : disk'.Sound
  within : disk.Within (before.directory? = some ·) disk'
  since : ∀ directory, after.directory? = some directory →
    before.directory? = some directory ∨ disk.nextDirectory ≤ directory

/-- The same source, streams that are twins, or nothing. -/
inductive Twin (disk disk' : Disk) : Slot σ α → Slot σ α → Prop
  | waiting (job : SortJob σ α) : Twin disk disk' (.waiting job) (.waiting job)
  | opened {stream stream' : SortedStream σ α} : stream.Twin disk disk' stream' →
    Twin disk disk' (.opened stream) (.opened stream')
  | gone : Twin disk disk' .gone .gone

theorem Twin.stable {disk disk' after after' : Disk} (twin : slot.Twin disk disk' slot')
    (onward : disk.Within (fun _ => True) after) (onward' : disk'.Within (fun _ => True) after') :
    slot.Twin after after' slot' := by
  cases twin with
  | waiting job => exact .waiting job
  | opened twin => exact .opened (twin.stable onward onward')
  | gone => exact .gone

variable [RecordSource σ α ε] [ErrorText ε]

theorem perform_confined (independent : Independent (ε := ε) (α := α) σ) (sorter : Sorter) (request : PoolRequest)
    (kept : slot.Kept host.disk) (sound : host.disk.Sound) :
    Ensures (slot.perform (ε := ε) sorter request) host fun result later =>
      Confined slot result.2 host.disk later.disk := by
  have unchanged : Confined slot slot host.disk host.disk := ⟨kept, sound, .refl _ _, fun _ => .inl⟩
  match slot, request with
  | .waiting job, .build =>
    simp only [perform]
    rw [Ensures.bind_iff]
    apply (sorter.sortBy_confined independent job.format job.compare job.source sound).mono
    rintro result later ⟨⟨within, sound'⟩, made⟩
    have within' : host.disk.Within ((none : Option Nat) = some ·) later.disk := within.mono fun _ => False.elim
    cases result with
    | error failure => exact ⟨.gone, sound', within', nofun⟩
    | ok stream =>
      obtain ⟨kept', since⟩ := made stream rfl
      exact ⟨.opened kept', sound', within', fun directory mine => .inr (since directory mine)⟩
  | .opened stream, .call call =>
    cases kept with
    | opened kept =>
      simp only [perform]
      rw [Ensures.bind_iff]
      apply (SortedStream.perform_confined independent call kept).mono
      rintro ⟨answer, stream'⟩ later ⟨kept', within, former⟩
      exact ⟨.opened kept', kept'.sound, within, fun directory mine => .inl (former directory mine)⟩
  | .opened stream, .drop =>
    cases kept with
    | opened kept =>
      simp only [perform]
      rw [Ensures.bind_iff]
      apply (SortedStream.discard_confined independent kept).mono
      rintro dropped later ⟨kept', within, -⟩
      exact ⟨.gone, kept'.sound, within, nofun⟩
  | .waiting job, .call call => exact unchanged
  | .waiting job, .drop => exact unchanged
  | .opened stream, .build => exact unchanged
  | .gone, .build => exact unchanged
  | .gone, .call call => exact unchanged
  | .gone, .drop => exact unchanged

/-- A request is answered the same on two stores. -/
theorem perform_twin (independent : Independent (ε := ε) (α := α) σ) (sorter : Sorter) (request : PoolRequest)
    (twin : slot.Twin host.disk host'.disk slot') (kept : slot.Kept host.disk) (kept' : slot'.Kept host'.disk)
    (sound : host.disk.Sound) (sound' : host'.disk.Sound) (refused_eq : host'.disk.refused = host.disk.refused) :
    Both (slot.perform (ε := ε) sorter request) host (slot'.perform (ε := ε) sorter request) host'
      fun result later result' later' => result'.1 = result.1 ∧ Twin later.disk later'.disk result.2 result'.2 := by
  match twin, request with
  | .waiting job, .build =>
    simp only [perform]
    rw [Both.bind_iff]
    apply (sorter.sortBy_twin independent job.format job.compare job.source sound sound' refused_eq).mono
    intro result later result' later' agree
    match result, result' with
    | .error failure, .error failure' =>
      obtain ⟨error, source⟩ := failure
      obtain ⟨error', source'⟩ := failure'
      cases agree with
      | error => exact ⟨rfl, .gone⟩
    | .ok stream, .ok stream' =>
      cases agree with
      | ok twin' => exact ⟨rfl, .opened twin'⟩
    | .error failure, .ok stream' => cases agree
    | .ok stream, .error failure' => cases agree
  | .opened twin, .call call =>
    cases kept with
    | opened kept =>
      cases kept' with
      | opened kept' =>
        simp only [perform]
        rw [Both.bind_iff]
        exact (SortedStream.perform_twin independent call twin kept kept').mono fun _ _ _ _ outcome =>
          ⟨congrArg PoolAnswer.called outcome.1, .opened outcome.2⟩
  | .opened twin, .drop =>
    simp only [perform]
    rw [Both.bind_iff]
    exact Both.of_forall fun _ _ _ _ => ⟨rfl, .gone⟩
  | .waiting job, .call call => exact ⟨rfl, .waiting job⟩
  | .waiting job, .drop => exact ⟨rfl, .waiting job⟩
  | .opened twin, .build => exact ⟨rfl, .opened twin⟩
  | .gone, .build => exact ⟨rfl, .gone⟩
  | .gone, .call call => exact ⟨rfl, .gone⟩
  | .gone, .drop => exact ⟨rfl, .gone⟩

theorem play_cons (slot : Slot σ α) (sorter : Sorter) (request : PoolRequest) (requests : List PoolRequest) :
    slot.play (ε := ε) sorter (request :: requests) =
      slot.perform sorter request >>= fun given => given.2.play sorter requests >>= fun played =>
        pure (given.1 :: played.1, played.2) := rfl

end Slot

/-! ## Many streams -/

/-- A directory is there, or not, as before, and so are the names in it and what is in its files. -/
structure Disk.SameIn (directory : Nat) (before after : Disk) : Prop where
  hasDirectory_eq : after.hasDirectory directory = before.hasDirectory directory
  entry_eq : ∀ path : SpillPath, path.directory = directory → after.entry? path = before.entry? path
  content_eq : ∀ (path : SpillPath) (node : Nat), path.directory = directory →
    before.entry? path = some (.file node) → after.content node = before.content node

theorem Disk.Within.sameIn {own : Nat → Prop} {before after : Disk} {directory : Nat}
    (within : before.Within own after) (sound : before.Sound) (present : before.hasDirectory directory)
    (foreign : ¬ own directory) : before.SameIn directory after := by
  have old := sound.directory_lt directory present
  refine ⟨within.hasDirectory_eq directory old foreign, ?_, ?_⟩
  · rintro path rfl
    exact within.entry_eq path old foreign
  · intro path node _ found
    exact within.content_eq node (sound.node_lt path node found)

namespace Pool

variable {ι : Type} {σ : ι → Type} {pool : Pool σ α}

section

variable [DecidableEq ι]

@[simp] theorem set_self (pool : Pool σ α) (index : ι) (slot : Slot (σ index) α) : pool.set index slot index = slot := by
  simp only [set, dite_true]

theorem set_of_ne (pool : Pool σ α) {index other : ι} (differ : other ≠ index) (slot : Slot (σ index) α) :
    pool.set index slot other = pool other := by
  simp only [set, differ, dite_false]

end

/-- All that the streams have can be found and removed, and no two have the same directory. -/
structure Kept (pool : Pool σ α) (disk : Disk) : Prop where
  sound : disk.Sound
  slots : ∀ index, (pool index).Kept disk
  apart : ∀ index other, index ≠ other → ∀ directory, (pool index).directory? = some directory →
    (pool other).directory? ≠ some directory

theorem kept_ofJobs {disk : Disk} (sound : disk.Sound) (jobs : ∀ index, SortJob (σ index) α) :
    (ofJobs jobs).Kept disk := ⟨sound, fun index => .waiting (jobs index), fun _ _ _ => nofun⟩

/-- What a stream does in its directory leaves the others what they have. -/
theorem Kept.set [DecidableEq ι] {disk disk' : Disk} (kept : pool.Kept disk) {index : ι} {slot : Slot (σ index) α}
    (confined : Slot.Confined (pool index) slot disk disk') : (pool.set index slot).Kept disk' := by
  -- A directory that the stream has come to have is new, so no other stream has it.
  have foreign : ∀ other, other ≠ index → ∀ directory, (pool other).directory? = some directory →
      slot.directory? ≠ some directory := by
    intro other differ directory mine theirs
    rcases confined.since directory theirs with former | new
    · exact kept.apart other index differ directory mine former
    · exact Nat.not_le.mpr (kept.sound.directory_lt directory ((kept.slots other).present mine)) new
  refine ⟨confined.sound, fun other => ?_, fun one other differ directory mine theirs => ?_⟩
  · by_cases same : other = index
    · subst same
      rw [set_self]
      exact confined.kept
    · rw [set_of_ne pool same]
      exact (kept.slots other).stable confined.within confined.sound (kept.apart other index same)
  · by_cases same : one = index
    · subst same
      rw [set_self] at mine
      rw [set_of_ne pool differ.symm] at theirs
      exact foreign other differ.symm directory theirs mine
    · rw [set_of_ne pool same] at mine
      by_cases same' : other = index
      · subst same'
        rw [set_self] at theirs
        exact foreign one same directory mine theirs
      · rw [set_of_ne pool same'] at theirs
        exact kept.apart one other differ directory mine theirs

variable [DecidableEq ι] [∀ index, RecordSource (σ index) α ε] [ErrorText ε]

theorem play_cons (pool : Pool σ α) (sorter : Sorter) (index : ι) (request : PoolRequest)
    (requests : List (ι × PoolRequest)) :
    pool.play (ε := ε) sorter ((index, request) :: requests) =
      (pool index).perform sorter request >>= fun given => (pool.set index given.2).play sorter requests >>= fun played =>
        pure ((index, given.1) :: played.1, played.2) := rfl

theorem play_kept (independent : ∀ index, Independent (ε := ε) (α := α) (σ index)) (sorter : Sorter)
    (requests : List (ι × PoolRequest)) (kept : pool.Kept host.disk) :
    Ensures (pool.play (ε := ε) sorter requests) host fun played later => played.2.Kept later.disk := by
  induction requests generalizing pool host with
  | nil => exact kept
  | cons first requests ih =>
    obtain ⟨index, request⟩ := first
    rw [play_cons, Ensures.bind_iff]
    apply (Slot.perform_confined (independent index) sorter request (kept.slots index) kept.sound).mono
    rintro given later confined
    rw [Ensures.bind_iff]
    exact (ih (kept.set confined)).mono fun _ _ kept => kept

/-- A stream among others and one alone that have come to the same point go on the same. -/
theorem play_twin (independent : ∀ index, Independent (ε := ε) (α := α) (σ index)) (sorter : Sorter) (index : ι)
    (requests : List (ι × PoolRequest)) {slot : Slot (σ index) α} (kept : pool.Kept host.disk)
    (twin : (pool index).Twin host.disk host'.disk slot) (kept' : slot.Kept host'.disk) (sound' : host'.disk.Sound)
    (refused_eq : host'.disk.refused = host.disk.refused) :
    Both (pool.play (ε := ε) sorter requests) host
      (slot.play (ε := ε) sorter ((requests.filter (·.1 = index)).map Prod.snd)) host' fun played _ alone _ =>
        alone.1 = (played.1.filter (·.1 = index)).map Prod.snd := by
  induction requests generalizing pool slot host host' with
  | nil => exact rfl
  | cons first requests ih =>
    obtain ⟨other, request⟩ := first
    have shared := Slot.perform_confined (independent other) sorter request (kept.slots other) kept.sound
    by_cases same : other = index
    · subst same
      have mine := Slot.perform_confined (independent other) sorter request kept' sound'
      have alike := Slot.perform_twin (independent other) sorter request twin (kept.slots other) kept' kept.sound sound'
        refused_eq
      rw [play_cons, List.filter_cons_of_pos (by simp), List.map_cons, Slot.play_cons, Both.bind_iff]
      apply (alike.and (Both.of_ensures shared mine)).mono
      rintro ⟨answer, after⟩ later ⟨answer', after'⟩ later' ⟨⟨answer_eq, twin'⟩, confined, confined'⟩
      obtain rfl : answer = answer' := answer_eq.symm
      have refused_eq' : later'.disk.refused = later.disk.refused := by
        rw [confined.within.refused_eq, confined'.within.refused_eq, refused_eq]
      have twin'' : ((pool.set other after) other).Twin later.disk later'.disk after' := by
        rw [set_self]
        exact twin'
      rw [Both.bind_iff]
      apply (ih (kept.set confined) twin'' confined'.kept confined'.sound refused_eq').mono
      rintro played last alone last' told
      rw [Both.pure_iff, List.filter_cons_of_pos (by simp), List.map_cons]
      exact congrArg (answer :: ·) told
    · rw [play_cons, List.filter_cons_of_neg (by simpa using same), Both.bind_left_iff]
      apply shared.mono
      rintro ⟨answer, after⟩ later confined
      have twin' : ((pool.set other after) index).Twin later.disk host'.disk slot := by
        rw [set_of_ne pool (Ne.symm same)]
        exact twin.stable (confined.within.mono fun _ _ => trivial) (.refl _ _)
      rw [Both.bind_left_iff]
      apply Ensures.mono (ih (kept.set confined) twin' kept' sound' (refused_eq.trans confined.within.refused_eq.symm))
      intro played last alone
      rw [Both.pure_left_iff]
      apply Ensures.mono alone
      intro answers last' told
      rw [List.filter_cons_of_neg (by simpa using same)]
      exact told

/-- Whatever is asked of the streams of one sorter, and in whatever order, each answers as it does alone, and a
request about one changes nothing in the directory of another. -/
theorem play_apart (independent : ∀ index, Independent (ε := ε) (α := α) (σ index)) (sorter : Sorter)
    (jobs : ∀ index, SortJob (σ index) α) (sound : host.disk.Sound) (requests : List (ι × PoolRequest)) :
    Ensures ((ofJobs jobs).play (ε := ε) sorter requests) host fun played later =>
      (∀ index, Ensures (Slot.play (ε := ε) sorter ((requests.filter (·.1 = index)).map Prod.snd)
        (.waiting (jobs index))) host fun alone _ => alone.1 = (played.1.filter (·.1 = index)).map Prod.snd) ∧
      ∀ index request, Ensures (played.2.perform (ε := ε) sorter index request) later fun _ last =>
        ∀ other, other ≠ index → ∀ directory, (played.2 other).directory? = some directory →
          later.disk.SameIn directory last.disk := by
  have kept := kept_ofJobs sound jobs
  apply Ensures.intro
  intro played later ran
  constructor
  · intro index
    exact Ensures.of_run (play_twin independent sorter index requests kept (.waiting (jobs index))
      (.waiting (jobs index)) sound rfl) ran
  · intro index request
    have kept' := (play_kept independent sorter requests kept).of_run ran
    simp only [perform]
    rw [Ensures.bind_iff]
    apply (Slot.perform_confined (independent index) sorter request (kept'.slots index) kept'.sound).mono
    intro given last confined other differ directory mine
    exact confined.within.sameIn kept'.sound ((kept'.slots other).present mine)
      (kept'.apart other index differ directory mine)

/-- Two sources of numbers. The run of the second cannot be read to its end. -/
def pairJobs (second : Bool) : SortJob (Script Int64 Empty) Int64 where
  source := .ofRecords (if second then [7, 5, 6] else [3, 1, 2, 1, 0])
  compare := Ord.compare
  format := SpillFormat.words.refusing (fun _ => none) fun record => if record = 7 then some "unlucky" else none

/-- The streams are asked in turn, until one has failed and is closed and the other is dropped. -/
def pairRequests : List (Bool × PoolRequest) :=
  [(false, .build), (true, .build), (false, .call .next), (true, .call .next), (true, .call .next),
    (false, .call .hasNext), (true, .call .close), (false, .drop)]

/-- Pages of two records. -/
def pairSorter : Sorter := ⟨{ SorterOptions.standard with pageSize := 2 }, by decide⟩

theorem play_apart_pair :
    Ensures ((ofJobs pairJobs).play (ε := Empty) pairSorter pairRequests) (Host.fresh .empty) fun played later =>
      (∀ index, Ensures (Slot.play (ε := Empty) pairSorter ((pairRequests.filter (·.1 = index)).map Prod.snd)
        (.waiting (pairJobs index))) (Host.fresh .empty) fun alone _ =>
          alone.1 = (played.1.filter (·.1 = index)).map Prod.snd) ∧
      ∀ index request, Ensures (played.2.perform (ε := Empty) pairSorter index request) later fun _ last =>
        ∀ other, other ≠ index → ∀ directory, (played.2 other).directory? = some directory →
          later.disk.SameIn directory last.disk :=
  play_apart (fun _ => independent_script) pairSorter pairJobs Disk.sound_empty pairRequests

end Pool

end SpillSort
