import SpillSort.Proofs.RunFiles
import SpillSort.Spill.Calls

/-! # Disposing of all runs, at once or one by one

Both ways try every live file, in the same order and with the same effect on the temporary store, whichever of
the files cannot be removed. They part in what stays live. Disposing of a run keeps its file live until it is
gone, so that what could not be removed is tried again. Disposing of all runs at once drops every file, also
those that are still there.
-/

namespace SpillSort

variable {α : Type}

/-! ## Names that cannot be taken away -/

namespace Disk

/-- Why a spill file cannot be removed. A file that is missing counts as removed. -/
def obstacle? (disk : Disk) (path : SpillPath) : Option FileError :=
  match (disk.remove path).1 with
  | .ok () => none
  | .error .notFound => none
  | .error error => some error

theorem obstacle?_eq (disk : Disk) (path : SpillPath) :
    disk.obstacle? path = if disk.entry? path = some .directory then some .isDirectory else none := by
  unfold obstacle? remove
  cases found : disk.entry? path with
  | none => rfl
  | some entry => cases entry <;> rfl

theorem obstacle?_congr {before after : Disk} {path : SpillPath} (same : after.entry? path = before.entry? path) :
    after.obstacle? path = before.obstacle? path := by
  rw [obstacle?_eq, obstacle?_eq, same]

/-- Removing was tried for some names: those that nothing keeps are gone, and all else is as before. -/
structure Rid (paths : List SpillPath) (before after : Disk) : Prop where
  entry?_eq : ∀ path, after.entry? path =
    if path ∈ paths ∧ before.obstacle? path = none then none else before.entry? path
  rest_eq : after = { before with entries := after.entries }

namespace Rid

variable {before middle after : Disk} {path : SpillPath} {paths : List SpillPath}

theorem refl (disk : Disk) : Rid [] disk disk := ⟨fun _ => by simp, rfl⟩

/-- Trying to remove a name makes no other name easier or harder to remove. -/
theorem obstacle?_eq (rid : Rid paths before after) : after.obstacle? = before.obstacle? := by
  funext path
  have after_eq := rid.entry?_eq path
  split at after_eq
  · next gone => rw [Disk.obstacle?_eq, after_eq, gone.2]; rfl
  · exact obstacle?_congr after_eq

theorem remove (disk : Disk) (path : SpillPath) : Rid [path] disk (disk.remove path).2 := by
  have obstacle_eq := disk.obstacle?_eq path
  constructor
  · intro other
    simp only [List.mem_singleton]
    unfold Disk.remove
    split
    · next missing =>
      split
      · next same => rw [same.1, missing]
      · rfl
    · next blocked =>
      rw [if_pos blocked] at obstacle_eq
      rw [if_neg]
      rintro ⟨rfl, free⟩
      rw [obstacle_eq] at free
      cases free
    · next found =>
      rw [found, if_neg (by simp)] at obstacle_eq
      rw [entry?_forget]
      by_cases same : other = path
      · rw [if_pos same, if_pos ⟨same, same ▸ obstacle_eq⟩]
      · rw [if_neg same, if_neg fun both => same both.1]
  · unfold Disk.remove
    split <;> rfl

theorem cons (first : Rid [path] before middle) (others : Rid paths middle after) :
    Rid (path :: paths) before after where
  entry?_eq other := by
    rw [others.entry?_eq, first.obstacle?_eq, first.entry?_eq]
    simp only [List.mem_cons, List.not_mem_nil, or_false]
    by_cases free : before.obstacle? other = none
    · by_cases same : other = path
      · simp only [same, true_or, true_and, same ▸ free, if_true, ite_self]
      · simp only [same, false_or, false_and, if_false]
    · simp only [free, and_false, if_false]
  rest_eq := by
    rw [others.rest_eq, first.rest_eq]

end Rid

end Disk

/-- The answer to an attempt that may meet an error. -/
def attempted (error? : Option FileError) : Except FileError Unit := error?.elim (.ok ()) .error

theorem removeSpillFile_rid (path : SpillPath) (host : Host) :
    Ensures (removeSpillFile path) host fun answer later =>
      answer = attempted (host.disk.obstacle? path) ∧ host.disk.Rid [path] later.disk := by
  apply (removeSpillFile_spec path host).mono
  rintro answer later ⟨removed, rfl⟩
  refine ⟨?_, removed ▸ .remove host.disk path⟩
  rw [Disk.obstacle?_eq]
  unfold Disk.remove
  split
  · next missing => rw [missing]; rfl
  · next blocked => rw [blocked]; rfl
  · next found => rw [found]; rfl

/-! ## Stores -/

namespace SpillStore

theorem removeAll_cons (path : SpillPath) (paths : List SpillPath) :
    removeAll (path :: paths) = do
      let first ← removeSpillFile path
      let others ← removeAll paths
      return first.bind fun _ => others := by
  rw [removeAll]
  congr 1
  funext first
  congr 1
  funext others
  cases first <;> rfl

/-- All files of a list are tried, and the answer is the first failure. -/
theorem removeAll_rid (paths : List SpillPath) (host : Host) :
    Ensures (removeAll paths) host fun answer later =>
      answer = attempted (paths.findSome? host.disk.obstacle?) ∧ host.disk.Rid paths later.disk := by
  induction paths generalizing host with
  | nil => exact ⟨rfl, .refl _⟩
  | cons path paths ih =>
    rw [removeAll_cons, Ensures.bind_iff]
    apply (removeSpillFile_rid path host).mono
    rintro answer middle ⟨rfl, first⟩
    rw [Ensures.bind_iff]
    apply (ih middle).mono
    rintro answers later ⟨rfl, others⟩
    refine ⟨?_, first.cons others⟩
    rw [List.findSome?_cons, first.obstacle?_eq]
    cases host.disk.obstacle? path with
    | none => rfl
    | some error => rfl

theorem liveAfter_attempted (store : SpillStore) (disk : Disk) (path : SpillPath) :
    store.liveAfter path (attempted (disk.obstacle? path)) =
      store.live.filter fun other => other ≠ path ∨ (disk.obstacle? other).isSome := by
  cases blocked : disk.obstacle? path with
  | none =>
    refine List.filter_congr fun other _ => ?_
    by_cases same : other = path
    · simp only [same, blocked, ne_eq, not_true_eq_false, false_or, Option.isSome_none, Bool.false_eq_true]
    · simp only [ne_eq, same, not_false_eq_true, true_or]
  | some error =>
    refine (List.filter_eq_self.mpr fun other _ => decide_eq_true ?_).symm
    by_cases same : other = path
    · exact .inr (by rw [same, blocked]; rfl)
    · exact .inl same

/-- What disposing of a run does, given what deleting its file does. -/
theorem perform_dispose (store : SpillStore) (format : SpillFormat α) (handle : SpillHandle) (host : Host) :
    Ensures (removeSpillFile handle.path) host fun answer later =>
      Ensures (store.perform format (.dispose handle)) host fun used last =>
        last = later ∧ used = (.removed answer, { store with live := store.liveAfter handle.path answer }) := by
  simp only [perform, dispose, removeLive]
  apply Ensures.intro
  intro answer later ran
  rw [Ensures.bind_iff, Ensures.bind_iff, Ensures.run_iff ran]
  cases answer with
  | error error => exact ⟨rfl, rfl⟩
  | ok => exact ⟨rfl, rfl⟩

/-- Disposing of runs one by one does to the host what removing all their files does. Every run is answered for by
itself, and the files that could not be removed stay live. -/
theorem play_dispose (store : SpillStore) (format : SpillFormat α) (handles : List SpillHandle) (host : Host) :
    Ensures (removeAll (handles.map SpillHandle.path)) host fun _ later =>
      Ensures (store.play format (handles.map .dispose)) host fun singly last =>
        last = later ∧
          singly.1 = handles.map (fun handle => .removed (attempted (host.disk.obstacle? handle.path))) ∧
          singly.2 = { store with
            live := store.live.filter fun path =>
              path ∉ handles.map SpillHandle.path ∨ (host.disk.obstacle? path).isSome } := by
  induction handles generalizing store host with
  | nil =>
    refine ⟨rfl, rfl, ?_⟩
    simp only [List.map_nil, List.not_mem_nil, not_false_eq_true, true_or, decide_true, List.filter_true]
    rfl
  | cons handle handles ih =>
    simp only [List.map_cons, removeAll_cons, play]
    rw [Ensures.bind_iff]
    apply ((store.perform_dispose format handle host).and (removeSpillFile_rid handle.path host)).mono
    rintro answer middle ⟨disposed, answer_eq, rid⟩
    rw [Ensures.bind_iff]
    apply (ih { store with live := store.liveAfter handle.path answer } middle).mono
    intro others later singly
    rw [Ensures.pure_iff, Ensures.bind_iff]
    apply disposed.mono
    rintro used last ⟨rfl, rfl⟩
    rw [Ensures.bind_iff]
    apply singly.mono
    rintro ⟨answers, store'⟩ end' ⟨rfl, rfl, rfl⟩
    rw [rid.obstacle?_eq, ← answer_eq]
    refine ⟨rfl, rfl, congrArg (fun live => { store with live }) ?_⟩
    rw [answer_eq, store.liveAfter_attempted, List.filter_filter]
    refine List.filter_congr fun path _ => ?_
    rw [← Bool.decide_and, decide_eq_decide, List.mem_cons, not_or, ← and_or_right, and_comm]

/-- The live files that cannot be removed. -/
def stuck (store : SpillStore) (disk : Disk) : List SpillPath :=
  store.live.filter fun path => (disk.obstacle? path).isSome

theorem stuck_eq_nil_iff {store : SpillStore} {disk : Disk} :
    store.stuck disk = [] ↔ ∀ path ∈ store.live, disk.obstacle? path = none := by
  simp only [stuck, List.filter_eq_nil_iff, Option.not_isSome_iff_eq_none]

/-- Disposing of all runs at once and of one after the other try the same files and leave the same host, and the
failure told is the first of those that are told one by one. One by one, what could not be removed stays live, and
a later attempt comes back to it. At once, nothing stays live, so the two agree exactly if nothing is stuck. -/
theorem disposeAll_singly (store : SpillStore) (format : SpillFormat α) {handles : List SpillHandle}
    (named : handles.map SpillHandle.path = store.live) (host : Host) :
    Ensures store.disposeAll host fun together later =>
      Ensures (store.play format (handles.map .dispose)) host fun singly last =>
        last = later ∧ host.disk.Rid store.live later.disk ∧
          singly.1 = handles.map (fun handle => .removed (attempted (host.disk.obstacle? handle.path))) ∧
          together.1 = attempted (store.live.findSome? host.disk.obstacle?) ∧
          singly.2 = { store with live := store.stuck host.disk } ∧
          together.2 = { store with live := [] } ∧
          (together.2 = singly.2 ↔ ∀ path ∈ store.live, host.disk.obstacle? path = none) ∧
          (∀ since : Host, Ensures singly.2.disposeAll since fun _ after =>
            since.disk.Rid (store.stuck host.disk) after.disk) ∧
          ∀ since : Host, Ensures together.2.disposeAll since fun again after => again.1 = .ok () ∧ after = since := by
  have stuck_eq : (store.live.filter fun path => path ∉ store.live ∨ (host.disk.obstacle? path).isSome) =
      store.stuck host.disk :=
    List.filter_congr fun path live => by simp only [live, not_true_eq_false, false_or, Bool.decide_eq_true]
  have singly := store.play_dispose format handles host
  rw [named, stuck_eq] at singly
  rw [disposeAll, Ensures.bind_iff]
  apply (singly.and (removeAll_rid store.live host)).mono
  rintro answer later ⟨singly, rfl, rid⟩
  rw [Ensures.pure_iff]
  apply singly.mono
  rintro ⟨answers, left⟩ last ⟨rfl, rfl, rfl⟩
  refine ⟨rfl, rid, rfl, rfl, rfl, rfl, ?_, fun since => ?_, fun since => ⟨rfl, rfl⟩⟩
  · rw [← stuck_eq_nil_iff]
    exact ⟨fun same => (congrArg live same).symm, fun none_stuck => by rw [none_stuck]⟩
  · rw [disposeAll, Ensures.bind_iff]
    exact (removeAll_rid (store.stuck host.disk) since).mono fun _ _ tried => tried.2

/-- Two runs, of which the first has given way to a directory. -/
theorem disposeAll_singly_directory :
    let store : SpillStore := ⟨.standard, some 0, none, 2, [⟨0, runName 0⟩, ⟨0, runName 1⟩]⟩
    let disk : Disk :=
      ⟨#[[], []], [(⟨0, runName 0⟩, .directory), (⟨0, runName 1⟩, .file 1)], [(0, .standard)], 1, []⟩
    let handles : List SpillHandle := [⟨⟨0, runName 0⟩, 1, 20⟩, ⟨⟨0, runName 1⟩, 1, 20⟩]
    handles.map SpillHandle.path = store.live ∧
      Ensures store.disposeAll (Host.fresh disk) fun together later =>
        Ensures (store.play .words (handles.map .dispose)) (Host.fresh disk) fun singly last =>
          last = later ∧ singly.1 = [.removed (.error .isDirectory), .removed (.ok ())] ∧
            together.1 = .error .isDirectory ∧ singly.2.live = [⟨0, runName 0⟩] ∧ together.2.live = [] ∧
              last.disk.entry? ⟨0, runName 1⟩ = none := by
  intro store disk handles
  have named : handles.map SpillHandle.path = store.live := rfl
  refine ⟨named, ?_⟩
  apply (store.disposeAll_singly .words named (Host.fresh disk)).mono
  intro together later parted
  apply parted.mono
  rintro singly last ⟨same, rid, told, first, kept, dropped, -, -, -⟩
  refine ⟨same, told, first, congrArg live kept, congrArg live dropped, ?_⟩
  rw [same, rid.entry?_eq]
  rfl

/-- A run that has given way to a directory cannot be removed. Disposing of it alone keeps it live. Disposing of all
runs tells the same failure, and then holds that nothing is there. -/
theorem disposeAll_drops_directory :
    Ensures ((new .standard none).play .words [.write [1]]) (Host.fresh .empty) fun written host =>
      let damaged : Host := { host with disk := host.disk.damage .becomeDirectory ⟨0, runName 0⟩ }
      written.2.stuck damaged.disk = [⟨0, runName 0⟩] ∧
        (Ensures (written.2.dispose ⟨⟨0, runName 0⟩, 1, 20⟩) damaged fun alone _ =>
          alone.1 = .error .isDirectory ∧ alone.2.live = [⟨0, runName 0⟩]) ∧
        Ensures written.2.disposeAll damaged fun together later =>
          together.1 = .error .isDirectory ∧ later.disk.entry? ⟨0, runName 0⟩ = some .directory ∧
            together.2.liveFiles = 0 :=
  ⟨rfl, ⟨rfl, rfl⟩, rfl, rfl, rfl⟩

end SpillStore

end SpillSort
