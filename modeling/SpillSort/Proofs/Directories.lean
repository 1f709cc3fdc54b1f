import SpillSort.Proofs.RunFiles

/-! # Directories and who has them

Directories on the temporary store are had by someone, a store of runs or a source. A step makes none that
nobody has, and nobody lets go of one that is still there. Such steps compose, and what happens to single files
does not matter to them.
-/

namespace SpillSort

/-- A step of one who has some directories and has others after it. -/
structure Disk.Minds (own own' : Nat → Prop) (before after : Disk) : Prop where
  sound : after.Sound
  nextDirectory_le : before.nextDirectory ≤ after.nextDirectory
  /-- A directory that is made belongs to someone. -/
  known : ∀ directory, after.hasDirectory directory → before.hasDirectory directory ∨ own' directory
  /-- A directory that was had before is had after, or gone. -/
  held : ∀ directory, own directory → after.hasDirectory directory → own' directory
  /-- Only new directories are taken. -/
  since : ∀ directory, own' directory →
    own directory ∨ before.nextDirectory ≤ directory ∧ directory < after.nextDirectory

namespace Disk.Minds

variable {own own' own'' : Nat → Prop} {before middle after : Disk}

/-- Changes of single files leave the directories to those who have them. -/
theorem of_same (sound : after.Sound) (nextDirectory_eq : after.nextDirectory = before.nextDirectory)
    (same : ∀ directory, after.hasDirectory directory = before.hasDirectory directory) : Minds own own before after :=
  ⟨sound, Nat.le_of_eq nextDirectory_eq.symm, fun directory present => .inl (same directory ▸ present),
    fun _ owned _ => owned, fun _ => .inl⟩

theorem refl (sound : before.Sound) : Minds own own before before := of_same sound rfl fun _ => rfl

theorem trans (first : Minds own own' before middle) (second : Minds own' own'' middle after) :
    Minds own own'' before after where
  sound := second.sound
  nextDirectory_le := Nat.le_trans first.nextDirectory_le second.nextDirectory_le
  known directory present := by
    rcases second.known directory present with earlier | owned
    · rcases first.known directory earlier with earlier' | owned
      · exact .inl earlier'
      · exact .inr (second.held directory owned present)
    · exact .inr owned
  held directory owned present := by
    have kept : middle.hasDirectory directory → own'' directory := fun earlier =>
      second.held directory (first.held directory owned earlier) present
    exact (second.known directory present).elim kept id
  since directory owned := by
    have first_le := first.nextDirectory_le
    have second_le := second.nextDirectory_le
    rcases second.since directory owned with earlier | ⟨new, small⟩
    · rcases first.since directory earlier with earlier' | ⟨new, small⟩
      · exact .inl earlier'
      · exact .inr ⟨new, Nat.lt_of_lt_of_le small second_le⟩
    · exact .inr ⟨Nat.le_trans first_le new, small⟩

/-- Others keep what they have. -/
theorem beside (minds : Minds own own' before after) (other : Nat → Prop) :
    Minds (fun directory => other directory ∨ own directory) (fun directory => other directory ∨ own' directory)
      before after where
  sound := minds.sound
  nextDirectory_le := minds.nextDirectory_le
  known directory present := (minds.known directory present).imp_right .inr
  held directory owned present := owned.imp_right fun owned => minds.held directory owned present
  since directory owned := by
    rcases owned with theirs | owned
    · exact .inl (.inl theirs)
    · exact (minds.since directory owned).imp_left .inr

theorem beside' (minds : Minds own own' before after) (other : Nat → Prop) :
    Minds (fun directory => own directory ∨ other directory) (fun directory => own' directory ∨ other directory)
      before after := by
  have swapped := minds.beside other
  simpa only [or_comm] using swapped

theorem remove (sound : before.Sound) (path : SpillPath) : Minds own own before (before.remove path).2 := by
  refine of_same (sound.remove path) ?_ (before.hasDirectory_remove path)
  simp only [Disk.remove]
  split <;> rfl

theorem create (sound : before.Sound) (path : SpillPath) : Minds own own before (before.create path).2 := by
  refine of_same (sound.create path) ?_ ?_
  · simp only [Disk.create]
    split
    · split <;> rfl
    · rfl
  · intro directory
    simp only [Disk.create]
    split
    · split <;> rfl
    · rfl

theorem setContent (sound : before.Sound) (node : Nat) (bytes : Bytes) :
    Minds own own before (before.setContent node bytes) :=
  of_same (sound.setContent node bytes) rfl fun _ => rfl

theorem damage (sound : before.Sound) (damage : Damage) (path : SpillPath) :
    Minds own own before (before.damage damage path) := by
  refine of_same (sound.damage damage path) ?_ (before.hasDirectory_damage damage path)
  simp only [Disk.damage]
  split <;> rfl

/-- Who makes a directory has it. -/
theorem makeDirectory (sound : before.Sound) (place : Place) {directory : Nat}
    (made : (before.makeDirectory place).1 = .ok directory) :
    Minds (none = some ·) (some directory = some ·) before (before.makeDirectory place).2 := by
  have sound' := sound.makeDirectory place
  obtain ⟨error, -, failed⟩ | ⟨-, makes⟩ := before.makeDirectory_cases place
  · rw [failed] at made
    cases made
  · rw [makes] at made sound' ⊢
    obtain rfl : before.nextDirectory = directory := Except.ok.inj made
    refine ⟨sound', Nat.le_succ _, ?_, by simp, ?_⟩
    · intro directory present
      simp only [hasDirectory, List.any_cons, Bool.or_eq_true, decide_eq_true_eq] at present
      exact present.symm.imp_left (by simp [hasDirectory]) |>.imp_right (congrArg some)
    · rintro directory ⟨⟩
      exact .inr ⟨Nat.le_refl _, Nat.lt_succ_self _⟩

/-- A removed directory is nobody's. -/
theorem removeDirectory (sound : before.Sound) (directory : Nat) :
    Minds (some directory = some ·) (none = some ·) before (before.removeDirectory directory).2 := by
  have gone : (before.removeDirectory directory).2.hasDirectory directory = false := by
    simp only [Disk.removeDirectory]
    split
    · simp [hasDirectory_forgetDirectory]
    · next missing => simpa using missing
  refine ⟨sound.removeDirectory directory, ?_, ?_, ?_, by simp⟩
  · simp only [Disk.removeDirectory]
    split <;> exact Nat.le_refl _
  · intro other present
    refine .inl ?_
    unfold Disk.removeDirectory at present
    split at present
    · rw [hasDirectory_forgetDirectory, Bool.and_eq_true] at present
      exact present.1
    · exact present
  · rintro other ⟨⟩ present
    rw [gone] at present
    cases present

end Disk.Minds

/-! ## Stores -/

theorem removeSpillFile_minds (own : Nat → Prop) (path : SpillPath) {host : Host} (sound : host.disk.Sound) :
    Ensures (removeSpillFile path) host fun _ later => host.disk.Minds own own later.disk := by
  apply (removeSpillFile_spec path host).mono
  rintro answer later ⟨removed, -⟩
  rw [removed]
  exact .remove sound path

namespace SpillStore

variable {α : Type} {host : Host}

theorem ensureDirectory_minds (store : SpillStore) (sound : host.disk.Sound) :
    Ensures store.ensureDirectory host fun result later =>
      host.disk.Minds (store.directory = some ·) (result.2.directory = some ·) later.disk := by
  simp only [ensureDirectory]
  split
  · exact .refl sound
  · next missing =>
    rw [Ensures.bind_iff, Ensures.onDisk_iff]
    obtain ⟨error, -, failed⟩ | ⟨-, made⟩ := host.disk.makeDirectory_cases store.place
    · rw [failed]
      exact .refl sound
    · have minds := Disk.Minds.makeDirectory sound store.place (congrArg Prod.fst made)
      rw [made] at minds ⊢
      dsimp only
      rw [missing]
      exact minds

/-- Writing makes at most the directory of the store. -/
theorem write_minds (store : SpillStore) (format : SpillFormat α) (records : List α) (sound : host.disk.Sound) :
    Ensures (store.write format records) host fun result later =>
      host.disk.Minds (store.directory = some ·) (result.2.directory = some ·) later.disk := by
  have created {own : Nat → Prop} {disk made : Disk} {path : SpillPath} {answer : Except FileError Nat}
      (minds : host.disk.Minds (store.directory = some ·) own disk) (created : disk.create path = (answer, made)) :
      host.disk.Minds (store.directory = some ·) own made := by
    have step : disk.Minds own own (disk.create path).2 := .create minds.sound path
    rw [created] at step
    exact minds.trans step
  refine write_rule (fun _ store' disk => host.disk.Minds (store.directory = some ·) (store'.directory = some ·) disk)
    ?_ ?_ ?_ ?_ ?_
  · apply (store.ensureDirectory_minds sound).mono
    rintro ⟨answer, store'⟩ middle minds
    cases answer with
    | error error => exact minds
    | ok directory => exact minds
  · exact fun path store' disk error later minds failed => created minds failed
  · intro path store' disk node made frames later minds made_eq _ content_eq
    rw [content_eq]
    exact (created minds made_eq).trans (.setContent (created minds made_eq).sound node _)
  · intro path store' disk node made error later minds made_eq _ _ removed
    rw [removed]
    exact (created minds made_eq).trans (.remove (created minds made_eq).sound path)
  · intro path store' disk node made size later minds made_eq _ left
    rw [left]
    exact created minds made_eq

theorem removeAll_minds (own : Nat → Prop) (paths : List SpillPath) (sound : host.disk.Sound) :
    Ensures (removeAll paths) host fun _ later => host.disk.Minds own own later.disk := by
  induction paths generalizing host with
  | nil => exact .refl sound
  | cons path paths ih =>
    simp only [removeAll]
    rw [Ensures.bind_iff]
    apply (removeSpillFile_minds own path sound).mono
    intro first later minds
    rw [Ensures.bind_iff]
    apply (ih minds.sound).mono
    intro others last minds'
    cases first with
    | error error => exact minds.trans minds'
    | ok => exact minds.trans minds'

/-- Closing removes the directory whatever becomes of the files in it. -/
theorem close_minds (store : SpillStore) (sound : host.disk.Sound) :
    Ensures store.close host fun result later =>
      host.disk.Minds (store.directory = some ·) (result.2.directory = some ·) later.disk ∧
        result.2.directory = none := by
  unfold close disposeAll
  rw [Ensures.bind_iff, Ensures.bind_iff]
  apply (removeAll_minds (store.directory = some ·) store.live sound).mono
  intro disposed later minds
  rw [Ensures.pure_iff]
  dsimp only
  split
  · next missing =>
    refine ⟨?_, missing⟩
    exact minds
  · next directory mine =>
    rw [Ensures.bind_iff]
    apply Ensures.report
    intro start same
    rw [Ensures.bind_iff, Ensures.onDisk_iff, same]
    have removed := minds.trans (mine ▸ Disk.Minds.removeDirectory minds.sound directory)
    generalize later.disk.removeDirectory directory = outcome at removed
    obtain ⟨answer, disk⟩ := outcome
    cases answer with
    | error error => exact ⟨removed, rfl⟩
    | ok => exact ⟨removed, rfl⟩

theorem discard_minds (store : SpillStore) (sound : host.disk.Sound) :
    Ensures store.discard host fun store' later =>
      host.disk.Minds (store.directory = some ·) (store'.directory = some ·) later.disk ∧
        store'.directory = none := by
  simp only [discard]
  rw [Ensures.bind_iff]
  apply (store.close_minds sound).mono
  rintro ⟨closed, store'⟩ later minds
  cases closed with
  | error error => exact minds
  | ok => exact minds

end SpillStore

end SpillSort
