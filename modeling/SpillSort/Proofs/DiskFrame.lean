import SpillSort.Disk.Damage

/-! # Sound stores and bounded changes

A store is sound when its names and directories hang together: nothing bears a number that has not been
given out, and no name stands outside a directory. A step works `Within` some directories when nothing it
does can be seen elsewhere: other directories keep their names, and no file that existed changes its
content. Directories made by the step itself do not count as elsewhere.
-/

namespace SpillSort.Disk

/-! ## Looking up names -/

theorem lookup_filter_ne {κ ν : Type} [BEq κ] [LawfulBEq κ] [DecidableEq κ] (entries : List (κ × ν)) (keep : κ → Bool)
    (key : κ) : (entries.filter fun entry => keep entry.1).lookup key =
      if keep key then entries.lookup key else none := by
  induction entries with
  | nil => simp
  | cons entry entries ih =>
    obtain ⟨name, value⟩ := entry
    by_cases same : key = name
    · subst same
      cases kept : keep key <;> simp [kept, ih]
    · have differ : (key == name) = false := by simpa using same
      cases kept : keep name <;> simp [kept, List.lookup_cons, differ, ih]

theorem entry?_forget (disk : Disk) (path other : SpillPath) :
    entry? (disk.forget path) other = if other = path then none else disk.entry? other := by
  have filtered := lookup_filter_ne disk.entries (fun name => decide (name ≠ path)) other
  by_cases same : other = path <;> simpa [forget, entry?, same] using filtered

theorem entry?_forgetDirectory (disk : Disk) (directory : Nat) (path : SpillPath) :
    entry? (disk.forgetDirectory directory) path =
      if path.directory = directory then none else disk.entry? path := by
  have filtered := lookup_filter_ne disk.entries (fun name => decide (name.directory ≠ directory)) path
  by_cases inside : path.directory = directory <;> simpa [forgetDirectory, entry?, inside] using filtered

theorem hasDirectory_forgetDirectory (disk : Disk) (directory other : Nat) :
    (disk.forgetDirectory directory).hasDirectory other = (disk.hasDirectory other && decide (other ≠ directory)) := by
  simp only [hasDirectory, forgetDirectory, List.any_filter]
  induction disk.directories with
  | nil => rfl
  | cons first rest ih =>
    simp only [List.any_cons, ih]
    by_cases same : first.1 = other
    · subst same
      cases decide (first.1 ≠ directory) <;> simp
    · simp [same]

theorem content_setContent (disk : Disk) (node other : Nat) (bytes : Bytes) :
    (disk.setContent node bytes).content other =
      if other = node ∧ node < disk.contents.size then bytes else disk.content other := by
  simp only [content, setContent, Array.getD_eq_getD_getElem?, Array.getElem?_setIfInBounds]
  by_cases same : node = other
  · subst same
    by_cases bound : node < disk.contents.size <;> simp [bound]
  · simp [same, Ne.symm same]

/-- A directory is made under the next number, unless its place refuses it. -/
theorem makeDirectory_cases (disk : Disk) (place : Place) :
    (∃ error, disk.refused.lookup place = some error ∧ disk.makeDirectory place = (.error error, disk)) ∨
      disk.refused.lookup place = none ∧
        disk.makeDirectory place = (.ok disk.nextDirectory,
          { disk with
            directories := (disk.nextDirectory, place) :: disk.directories
            nextDirectory := disk.nextDirectory + 1 }) := by
  simp only [makeDirectory]
  split
  · next error refused => exact .inl ⟨error, refused, rfl⟩
  · next allowed => exact .inr ⟨allowed, rfl⟩

/-- The store with one more file. -/
def withFile (disk : Disk) (path : SpillPath) (bytes : Bytes) : Disk :=
  { disk with
    contents := disk.contents.push bytes
    entries := (path, .file disk.contents.size) :: disk.entries }

theorem entry?_withFile (disk : Disk) (path other : SpillPath) (bytes : Bytes) :
    entry? (disk.withFile path bytes) other =
      if other = path then some (.file disk.contents.size) else disk.entry? other := by
  by_cases same : other = path
  · simp [withFile, entry?, same]
  · have differ : (other == path) = false := by simpa using same
    simp [withFile, entry?, List.lookup_cons, differ, same]

theorem content_withFile (disk : Disk) (path : SpillPath) (bytes : Bytes) (node : Nat) :
    (disk.withFile path bytes).content node = if node = disk.contents.size then bytes else disk.content node := by
  simp only [withFile, content, Array.getD_eq_getD_getElem?, Array.getElem?_push]
  split <;> rfl

theorem setContent_withFile (disk : Disk) (path : SpillPath) (old bytes : Bytes) :
    (disk.withFile path old).setContent disk.contents.size bytes = disk.withFile path bytes := by
  simp only [withFile, setContent]
  congr 1
  apply Array.ext_getElem?
  intro node
  rw [Array.getElem?_setIfInBounds, Array.getElem?_push, Array.getElem?_push]
  by_cases same : node = disk.contents.size
  · simp [same]
  · simp [same, Ne.symm same]

/-- A file can be made under a free name in a directory. -/
theorem create_of_free {disk : Disk} {path : SpillPath} (there : disk.hasDirectory path.directory)
    (free : disk.entry? path = none) :
    disk.create path = (.ok disk.contents.size, disk.withFile path []) := by
  simp only [create, there, free, if_true, withFile]

/-- Making a file either fails and changes nothing, or adds an empty file under a free name. -/
theorem create_cases (disk : Disk) (path : SpillPath) :
    (∃ error, disk.create path = (.error error, disk)) ∨
      disk.hasDirectory path.directory ∧ disk.entry? path = none ∧
        disk.create path = (.ok disk.contents.size, disk.withFile path []) := by
  cases there : disk.hasDirectory path.directory with
  | false => exact .inl ⟨.notFound, by simp [create, there]⟩
  | true =>
    cases free : disk.entry? path with
    | some entry => exact .inl ⟨.alreadyExists, by simp [create, there, free]⟩
    | none => exact .inr ⟨rfl, rfl, create_of_free there free⟩

/-- A file that was just made can be removed. -/
theorem remove_of_created {disk made : Disk} {path : SpillPath} {node : Nat}
    (created : disk.create path = (.ok node, made)) : made.remove path = (.ok (), made.forget path) := by
  obtain ⟨error, failed⟩ | ⟨-, -, created'⟩ := disk.create_cases path
  · cases created.symm.trans failed
  · cases created.symm.trans created'
    simp only [remove, entry?_withFile, if_true]

theorem hasDirectory_remove (disk : Disk) (path : SpillPath) (directory : Nat) :
    (disk.remove path).2.hasDirectory directory = disk.hasDirectory directory := by
  simp only [remove]
  split <;> rfl

/-- Removing a name either does nothing to the names or takes this one away. -/
theorem entry?_remove (disk : Disk) (path other : SpillPath) :
    Disk.entry? (disk.remove path).2 other = disk.entry? other ∨
      other = path ∧ Disk.entry? (disk.remove path).2 other = none := by
  simp only [remove]
  split
  · exact .inl rfl
  · exact .inl rfl
  · rw [entry?_forget]
    split
    · next same => exact .inr ⟨same, rfl⟩
    · exact .inl rfl

/-! ## Sound stores -/

/-- Numbers in use have been given out, and every name stands in a directory. -/
structure Sound (disk : Disk) : Prop where
  directory_lt : ∀ directory, disk.hasDirectory directory → directory < disk.nextDirectory
  inside : ∀ path, disk.entry? path ≠ none → disk.hasDirectory path.directory
  node_lt : ∀ path node, disk.entry? path = some (.file node) → node < disk.contents.size

theorem sound_empty : empty.Sound := ⟨nofun, fun _ present => absurd rfl present, nofun⟩

/-- A name in a directory that is not there stands for nothing. -/
theorem Sound.entry?_eq_none {disk : Disk} (sound : disk.Sound) {path : SpillPath}
    (missing : disk.hasDirectory path.directory = false) : disk.entry? path = none := by
  cases found : disk.entry? path with
  | none => rfl
  | some entry =>
    have there := sound.inside path (by rw [found]; exact Option.some_ne_none _)
    rw [missing] at there
    cases there

theorem Sound.makeDirectory {disk : Disk} (sound : disk.Sound) (place : Place) :
    (disk.makeDirectory place).2.Sound := by
  simp only [Disk.makeDirectory]
  split
  · exact sound
  · constructor
    · intro directory present
      simp only [hasDirectory, List.any_cons, Bool.or_eq_true, decide_eq_true_eq] at present
      rcases present with same | old
      · exact same ▸ Nat.lt_succ_self _
      · exact Nat.lt_succ_of_lt (sound.directory_lt directory old)
    · intro path present
      have old := sound.inside path present
      simp only [hasDirectory, List.any_cons, Bool.or_eq_true] at old ⊢
      exact .inr old
    · exact sound.node_lt

theorem Sound.withFile {disk : Disk} (sound : disk.Sound) {path : SpillPath} (there : disk.hasDirectory path.directory)
    (bytes : Bytes) : (disk.withFile path bytes).Sound := by
  refine ⟨sound.directory_lt, ?_, ?_⟩
  · intro other present
    rw [entry?_withFile] at present
    split at present
    · next same => exact same ▸ there
    · exact sound.inside other present
  · intro other node found
    rw [entry?_withFile] at found
    simp only [Disk.withFile, Array.size_push]
    split at found
    · cases found
      exact Nat.lt_succ_self _
    · exact Nat.lt_succ_of_lt (sound.node_lt other node found)

theorem Sound.create {disk : Disk} (sound : disk.Sound) (path : SpillPath) : (disk.create path).2.Sound := by
  obtain ⟨error, failed⟩ | ⟨there, -, made⟩ := disk.create_cases path
  · rw [failed]
    exact sound
  · rw [made]
    exact sound.withFile there []

theorem Sound.setContent {disk : Disk} (sound : disk.Sound) (node : Nat) (bytes : Bytes) :
    (disk.setContent node bytes).Sound := by
  refine ⟨sound.directory_lt, sound.inside, ?_⟩
  intro path other found
  rw [Disk.setContent, Array.size_setIfInBounds]
  exact sound.node_lt path other found

theorem Sound.forget {disk : Disk} (sound : disk.Sound) (path : SpillPath) : (disk.forget path).Sound := by
  refine ⟨sound.directory_lt, ?_, ?_⟩
  · intro other present
    rw [entry?_forget] at present
    split at present
    · exact absurd rfl present
    · exact sound.inside other present
  · intro other node found
    rw [entry?_forget] at found
    split at found
    · cases found
    · exact sound.node_lt other node found

theorem Sound.remove {disk : Disk} (sound : disk.Sound) (path : SpillPath) : (disk.remove path).2.Sound := by
  simp only [Disk.remove]
  split
  · exact sound
  · exact sound
  · exact sound.forget path

theorem Sound.forgetDirectory {disk : Disk} (sound : disk.Sound) (directory : Nat) :
    (disk.forgetDirectory directory).Sound := by
  refine ⟨?_, ?_, ?_⟩
  · intro other present
    rw [hasDirectory_forgetDirectory, Bool.and_eq_true] at present
    exact sound.directory_lt other present.1
  · intro path present
    rw [entry?_forgetDirectory] at present
    split at present
    · exact absurd rfl present
    · next outside =>
      rw [hasDirectory_forgetDirectory, sound.inside path present]
      simpa using outside
  · intro path node found
    rw [entry?_forgetDirectory] at found
    split at found
    · cases found
    · exact sound.node_lt path node found

theorem Sound.removeDirectory {disk : Disk} (sound : disk.Sound) (directory : Nat) :
    (disk.removeDirectory directory).2.Sound := by
  simp only [Disk.removeDirectory]
  split
  · exact sound.forgetDirectory directory
  · exact sound

/-- A change of one file from outside keeps names and directories together. -/
theorem Sound.damage {disk : Disk} (sound : disk.Sound) (damage : Damage) (path : SpillPath) :
    (disk.damage damage path).Sound := by
  simp only [Disk.damage]
  split
  · exact sound.setContent _ _
  · exact sound.setContent _ _
  · exact sound.forget path
  · next node found =>
    have there := sound.inside path (by rw [found]; exact Option.some_ne_none _)
    have rest := sound.forget path
    refine ⟨rest.directory_lt, ?_, ?_⟩
    · intro other present
      unfold entry? at present
      rw [List.lookup_cons] at present
      split at present
      · next same => exact eq_of_beq same ▸ there
      · exact rest.inside other present
    · intro other node' found'
      unfold entry? at found'
      rw [List.lookup_cons] at found'
      split at found'
      · cases found'
      · exact rest.node_lt other node' found'
  · exact sound

theorem hasDirectory_damage (disk : Disk) (damage : Damage) (path : SpillPath) (directory : Nat) :
    (disk.damage damage path).hasDirectory directory = disk.hasDirectory directory := by
  simp only [Disk.damage]
  split <;> rfl

/-! ## Changes within some directories -/

/-- What a step did cannot be seen outside the directories it owns, apart from those it made. -/
structure Within (own : Nat → Prop) (before after : Disk) : Prop where
  nextDirectory_le : before.nextDirectory ≤ after.nextDirectory
  size_le : before.contents.size ≤ after.contents.size
  content_eq : ∀ node < before.contents.size, after.content node = before.content node
  refused_eq : after.refused = before.refused
  hasDirectory_eq : ∀ directory < before.nextDirectory, ¬ own directory →
    after.hasDirectory directory = before.hasDirectory directory
  entry_eq : ∀ path : SpillPath, path.directory < before.nextDirectory → ¬ own path.directory →
    after.entry? path = before.entry? path

namespace Within

variable {own : Nat → Prop} {before middle after : Disk}

theorem refl (own : Nat → Prop) (disk : Disk) : Within own disk disk :=
  ⟨Nat.le_refl _, Nat.le_refl _, fun _ _ => rfl, rfl, fun _ _ _ => rfl, fun _ _ _ => rfl⟩

theorem mono {own' : Nat → Prop} (within : Within own before after)
    (wider : ∀ directory, own directory → own' directory) : Within own' before after :=
  { within with
    hasDirectory_eq := fun directory old other => within.hasDirectory_eq directory old (other ∘ wider directory)
    entry_eq := fun path old other => within.entry_eq path old (other ∘ wider path.directory) }

/-- Later steps may also own what has been made since. -/
theorem trans {own' : Nat → Prop} (first : Within own before middle) (second : Within own' middle after)
    (since : ∀ directory, own' directory → own directory ∨ before.nextDirectory ≤ directory) :
    Within own before after where
  nextDirectory_le := Nat.le_trans first.nextDirectory_le second.nextDirectory_le
  size_le := Nat.le_trans first.size_le second.size_le
  content_eq node old := by
    rw [second.content_eq node (Nat.lt_of_lt_of_le old first.size_le), first.content_eq node old]
  refused_eq := second.refused_eq.trans first.refused_eq
  hasDirectory_eq directory old other := by
    have foreign : ¬ own' directory := fun owned => (since directory owned).elim other (Nat.not_le.mpr old)
    rw [second.hasDirectory_eq directory (Nat.lt_of_lt_of_le old first.nextDirectory_le) foreign,
      first.hasDirectory_eq directory old other]
  entry_eq path old other := by
    have foreign : ¬ own' path.directory := fun owned => (since _ owned).elim other (Nat.not_le.mpr old)
    rw [second.entry_eq path (Nat.lt_of_lt_of_le old first.nextDirectory_le) foreign,
      first.entry_eq path old other]

/-- A file in a directory that is not owned stays what it is. -/
theorem file_eq (within : Within own before after) (sound : before.Sound) {path : SpillPath} {node : Nat}
    (found : before.entry? path = some (.file node)) (other : ¬ own path.directory) :
    after.entry? path = some (.file node) ∧ after.content node = before.content node := by
  have old := sound.directory_lt _ (sound.inside path (by rw [found]; exact Option.some_ne_none _))
  exact ⟨(within.entry_eq path old other).trans found, within.content_eq node (sound.node_lt path node found)⟩

theorem makeDirectory (own : Nat → Prop) (disk : Disk) (place : Place) :
    Within own disk (disk.makeDirectory place).2 := by
  simp only [Disk.makeDirectory]
  split
  · exact .refl own disk
  · refine ⟨Nat.le_succ _, Nat.le_refl _, fun _ _ => rfl, rfl, ?_, fun _ _ _ => rfl⟩
    intro directory old _
    have differ : disk.nextDirectory ≠ directory := Nat.ne_of_gt old
    simp [hasDirectory, differ]

theorem withFile {path : SpillPath} (owned : own path.directory ∨ before.nextDirectory ≤ path.directory)
    (bytes : Bytes) : Within own before (before.withFile path bytes) := by
  refine ⟨Nat.le_refl _, by simp [Disk.withFile], ?_, rfl, fun _ _ _ => rfl, ?_⟩
  · intro node old
    rw [content_withFile, if_neg (Nat.ne_of_lt old)]
  · intro other old foreign
    rw [entry?_withFile, if_neg]
    rintro rfl
    exact owned.elim foreign (Nat.not_le.mpr old)

theorem remove {path : SpillPath} (owned : own path.directory) : Within own before (before.remove path).2 := by
  simp only [Disk.remove]
  split
  · exact .refl own before
  · exact .refl own before
  · refine ⟨Nat.le_refl _, Nat.le_refl _, fun _ _ => rfl, rfl, fun _ _ _ => rfl, ?_⟩
    intro other _ foreign
    rw [entry?_forget, if_neg]
    intro same
    exact foreign (same ▸ owned)

theorem removeDirectory {directory : Nat} (owned : own directory) :
    Within own before (before.removeDirectory directory).2 := by
  simp only [Disk.removeDirectory]
  split
  · refine ⟨Nat.le_refl _, Nat.le_refl _, fun _ _ => rfl, rfl, ?_, ?_⟩
    · intro other _ foreign
      have differ : other ≠ directory := fun same => foreign (same ▸ owned)
      simp [hasDirectory_forgetDirectory, differ]
    · intro path _ foreign
      rw [entry?_forgetDirectory, if_neg]
      intro same
      exact foreign (same ▸ owned)
  · exact .refl own before

end Within

/-! ## Files that only become shorter -/

/-- Files keep their content or, where that is allowed, lose the end of it. -/
structure Shrinks (cut : Prop) (before after : Disk) : Prop where
  size_le : before.contents.size ≤ after.contents.size
  part : ∀ node < before.contents.size, after.content node <+: before.content node
  whole : ¬ cut → ∀ node < before.contents.size, after.content node = before.content node

namespace Shrinks

variable {cut : Prop} {before after : Disk}

theorem of_content_eq (size_le : before.contents.size ≤ after.contents.size)
    (same : ∀ node < before.contents.size, after.content node = before.content node) : Shrinks cut before after :=
  ⟨size_le, fun node old => same node old ▸ List.prefix_refl _, fun _ => same⟩

theorem refl (cut : Prop) (disk : Disk) : Shrinks cut disk disk := of_content_eq (Nat.le_refl _) fun _ _ => rfl

end Shrinks

/-- A step that works within some directories never changes what is in a file. -/
theorem Within.shrinks {own : Nat → Prop} {before after : Disk} (within : Within own before after) (cut : Prop) :
    Shrinks cut before after := .of_content_eq within.size_le within.content_eq

end SpillSort.Disk
