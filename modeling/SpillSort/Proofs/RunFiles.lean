import SpillSort.Proofs.RunReading

/-! # Files of runs

A store that is ready can write its next run under a name that stands for nothing yet. The run is then in
its file, all other files are what they were, and the store is ready again. Writing fails only if no
directory can be made or a record has no payload that fits a frame, and is given up only if no buffer can
be had. A run in its file can be opened, and the reader tracks all its records.
-/

namespace SpillSort

/-! ## Names -/

private theorem ofDigitChars_padded (id : Nat) :
    Nat.ofDigitChars 10 (List.replicate (6 - (Nat.toDigits 10 id).length) '0' ++ Nat.toDigits 10 id) 0 = id := by
  rw [Nat.ofDigitChars_append, Nat.ofDigitChars_replicate_zero, Nat.mul_zero, Nat.ofDigitChars_ten_toDigits]

/-- Runs of different numbers have different names. -/
theorem runName_injective {a b : Nat} (same : runName a = runName b) : a = b := by
  have texts := congrArg String.toList same
  simp only [runName, String.toList_append, String.toList_ofList] at texts
  have digits := List.append_cancel_left (List.append_cancel_right texts)
  rw [← ofDigitChars_padded a, ← ofDigitChars_padded b, digits]

/-! ## Runs in their files -/

/-- The file of a run has the frames of these records. -/
structure SpillHandle.Holds {α : Type} (format : SpillFormat α) (handle : SpillHandle) (records : List α)
    (disk : Disk) : Prop where
  records_eq : handle.records = records.length
  file : ∃ node frames, disk.entry? handle.path = some (.file node) ∧ Frame.encodeAll format records = .ok frames ∧
    disk.content node = Frame.magic ++ frames ∧ handle.size = (Frame.magic ++ frames).length

/-- A run does not notice changes elsewhere. -/
theorem SpillHandle.Holds.stable {α : Type} {format : SpillFormat α} {handle : SpillHandle} {records : List α}
    {before after : Disk} (holds : handle.Holds format records before)
    (keeps : ∀ node, before.entry? handle.path = some (.file node) →
      after.entry? handle.path = some (.file node) ∧ after.content node = before.content node) :
    handle.Holds format records after := by
  obtain ⟨records_eq, node, frames, found, encoded, content_eq, size_eq⟩ := holds
  obtain ⟨found', content_eq'⟩ := keeps node found
  exact ⟨records_eq, node, frames, found', encoded, content_eq'.trans content_eq, size_eq⟩

namespace SpillStore

variable {α : Type}

/-- The directory of the store is there, and the names of its next runs are free. -/
structure Ready (store : SpillStore) (disk : Disk) : Prop where
  present : ∀ directory, store.directory = some directory → disk.hasDirectory directory
  free : ∀ directory id, store.directory = some directory → store.nextId ≤ id →
    disk.entry? ⟨directory, runName id⟩ = none

/-- Nothing keeps the store from writing these records. -/
structure Accepts (store : SpillStore) (format : SpillFormat α) (records : List α) (disk : Disk) : Prop where
  place : disk.refused.lookup store.place = none
  buffer : store.bufferSize.getD BufferedFile.standardCapacity ≤ BufferedFile.capacityLimit
  fits : ∀ record ∈ records, format.Fits record

/-- Words can be written to a store that nothing was done to. -/
theorem accepts_words (records : List Int64) : (new .standard none).Accepts .words records .empty :=
  ⟨rfl, by decide, fun record _ => SpillFormat.words_fits record⟩

/-- Whether records can be written is a matter of the options, the place and the records. -/
theorem Accepts.of_eq {store store' : SpillStore} {format : SpillFormat α} {records : List α} {disk disk' : Disk}
    (accepts : store.Accepts format records disk) (place_eq : store'.place = store.place)
    (bufferSize_eq : store'.bufferSize = store.bufferSize) (refused_eq : disk'.refused = disk.refused) :
    store'.Accepts format records disk' := by
  refine ⟨?_, ?_, accepts.fits⟩
  · rw [place_eq, refused_eq]
    exact accepts.place
  · rw [bufferSize_eq]
    exact accepts.buffer

/-- A run was written to a file of its own, and no name that there was has changed. -/
structure Wrote (store : SpillStore) (format : SpillFormat α) (records : List α) (before : Disk)
    (handle : SpillHandle) (store' : SpillStore) (after : Disk) : Prop where
  holds : handle.Holds format records after
  ready : store'.Ready after
  directory_eq : store'.directory = some handle.path.directory
  place_eq : store'.place = store.place
  bufferSize_eq : store'.bufferSize = store.bufferSize
  since : store.directory = some handle.path.directory ∨
    store.directory = none ∧ before.nextDirectory ≤ handle.path.directory
  kept : ∀ path, before.entry? path ≠ none → after.entry? path = before.entry? path

/-- Runs that were in their files before are still there. -/
theorem Wrote.still_holds {store store' : SpillStore} {format : SpillFormat α} {written records : List α}
    {handle other : SpillHandle} {own : Nat → Prop} {before after : Disk}
    (wrote : store.Wrote format written before handle store' after) (within : before.Within own after)
    (sound : before.Sound) (holds : other.Holds format records before) : other.Holds format records after := by
  refine holds.stable fun node found => ⟨?_, within.content_eq node (sound.node_lt _ _ found)⟩
  rw [wrote.kept _ (by rw [found]; exact Option.some_ne_none _), found]

theorem ready_new (place : Place) (bufferSize : Option Nat) (disk : Disk) : (new place bufferSize).Ready disk :=
  ⟨nofun, nofun⟩

theorem Ready.stable {store : SpillStore} {own : Nat → Prop} {before after : Disk} (ready : store.Ready before)
    (sound : before.Sound) (within : before.Within own after)
    (apart : ∀ directory, store.directory = some directory → ¬ own directory) : store.Ready after := by
  constructor
  · intro directory mine
    have there := ready.present directory mine
    rw [within.hasDirectory_eq directory (sound.directory_lt _ there) (apart directory mine)]
    exact there
  · intro directory id mine later
    have there := ready.present directory mine
    rw [within.entry_eq ⟨directory, _⟩ (sound.directory_lt _ there) (apart directory mine)]
    exact ready.free directory id mine later

/-- The next run's name is used up, and those after it are still free. -/
theorem Ready.withFile {store : SpillStore} {disk : Disk} {directory : Nat} {path : SpillPath}
    (ready : store.Ready disk) (path_eq : SpillPath.mk directory (runName store.nextId) = path) (bytes : Bytes)
    (live : List SpillPath) :
    { store with nextId := store.nextId + 1, live }.Ready (disk.withFile path bytes) := by
  refine ⟨fun other mine' => ready.present other mine', ?_⟩
  intro other id mine' later
  rw [Disk.entry?_withFile, if_neg]
  · exact ready.free other id mine' (Nat.le_of_succ_le later)
  · intro same
    have names := runName_injective (congrArg SpillPath.name (same.trans path_eq.symm))
    exact Nat.ne_of_gt later names

/-! ## Writing -/

/-- Why no directory can be made for the store, if it has none and its place is refused. -/
def barred? (store : SpillStore) (disk : Disk) : Option FileError :=
  match store.directory with
  | some _ => none
  | none => disk.refused.lookup store.place

theorem Accepts.barred?_eq_none {store : SpillStore} {format : SpillFormat α} {records : List α} {disk : Disk}
    (accepts : store.Accepts format records disk) : store.barred? disk = none := by
  unfold barred?
  split
  · rfl
  · exact accepts.place

theorem ensureDirectory_spec {store : SpillStore} {host : Host} (ready : store.Ready host.disk)
    (sound : host.disk.Sound) :
    Ensures store.ensureDirectory host fun result later =>
      host.disk.Within (store.directory = some ·) later.disk ∧ later.disk.Sound ∧
        match result.1 with
        | .error error => store.barred? host.disk = some error ∧ result.2 = store ∧ later.disk = host.disk
        | .ok directory => result.2 = { store with directory := some directory } ∧ result.2.Ready later.disk ∧
            (store.directory = some directory ∨ store.directory = none ∧ host.disk.nextDirectory ≤ directory) ∧
            later.disk.entries = host.disk.entries ∧ store.barred? host.disk = none := by
  simp only [ensureDirectory]
  split
  · next directory mine =>
    refine ⟨.refl _ _, sound, ?_, ready, .inl mine, rfl, by simp only [barred?, mine]⟩
    rw [← mine]
    rfl
  · next missing =>
    rw [Ensures.bind_iff, Ensures.onDisk_iff]
    have within := Disk.Within.makeDirectory (store.directory = some ·) host.disk store.place
    have sound' := sound.makeDirectory store.place
    obtain ⟨error, refused, failed⟩ | ⟨allowed, made⟩ := host.disk.makeDirectory_cases store.place
    · rw [failed] at within sound' ⊢
      exact ⟨within, sound', by simp only [barred?, missing, refused], rfl, rfl⟩
    · rw [made] at within sound' ⊢
      have there : Disk.hasDirectory { host.disk with
          directories := (host.disk.nextDirectory, store.place) :: host.disk.directories
          nextDirectory := host.disk.nextDirectory + 1 } host.disk.nextDirectory := by simp [Disk.hasDirectory]
      refine ⟨within, sound', rfl, ⟨?_, ?_⟩, .inr ⟨missing, Nat.le_refl _⟩, rfl, by simp only [barred?, missing, allowed]⟩
      · rintro directory ⟨⟩
        exact there
      · rintro directory id ⟨⟩ -
        -- Nothing can have a name in a directory whose number had not been given out.
        apply sound.entry?_eq_none
        rw [Bool.eq_false_iff]
        intro there
        exact Nat.lt_irrefl _ (sound.directory_lt _ there)

theorem dump_spec (store : SpillStore) (format : SpillFormat α) (records : List α) :
    match store.dump format records with
    | .ok frames => Frame.encodeAll format records = .ok frames
    | .error _ => ¬ (store.bufferSize.getD BufferedFile.standardCapacity ≤ BufferedFile.capacityLimit ∧
        ∀ record ∈ records, format.Fits record) := by
  unfold dump
  split
  · next dumped =>
    dsimp only at dumped
    split at dumped
    · exact dumped
    · cases dumped
  · next error dumped =>
    rintro ⟨buffer, fits⟩
    obtain ⟨frames, encoded⟩ := Frame.encodeAll_ok_of_fits fits
    simp only [if_pos buffer, encoded] at dumped
    cases dumped

/-- What is live after a file was to be deleted. -/
def liveAfter (store : SpillStore) (path : SpillPath) : Except FileError Unit → List SpillPath
  | .ok () => store.live.filter (· ≠ path)
  | .error _ => store.live

theorem removeLive_spec (store : SpillStore) (path : SpillPath) (host : Host) :
    Ensures (store.removeLive path) host fun result later =>
      later.disk = (host.disk.remove path).2 ∧
        result.1 = (if (host.disk.remove path).1 = .error .notFound then .ok () else (host.disk.remove path).1) ∧
        result.2 = { store with live := store.liveAfter path result.1 } := by
  simp only [removeLive]
  rw [Ensures.bind_iff]
  apply (removeSpillFile_spec path host).mono
  rintro answer later ⟨removed, answer_eq⟩
  cases answer with
  | error error => exact ⟨removed, answer_eq, rfl⟩
  | ok => exact ⟨removed, answer_eq, rfl⟩

/-- Writing as steps: with the directory there a file is made, and then it gets its content, or is removed again, or
stays behind where the write is given up. -/
theorem write_rule {store : SpillStore} {format : SpillFormat α} {records : List α} {host : Host}
    {post : Except SpillError SpillHandle × SpillStore → Host → Prop} (prepared : SpillPath → SpillStore → Disk → Prop)
    (ensured : Ensures store.ensureDirectory host fun result middle =>
      match result.1 with
      | .error error => post (.error (.temporaryDirectory error), result.2) middle
      | .ok directory => prepared ⟨directory, runName result.2.nextId⟩ result.2 middle.disk)
    (taken : ∀ path store' disk error (later : Host), prepared path store' disk →
      disk.create path = (.error error, later.disk) →
        post (.error (.io error), { store' with nextId := store'.nextId + 1 }) later)
    (written : ∀ path store' disk node made frames (later : Host), prepared path store' disk →
      disk.create path = (.ok node, made) → store'.dump format records = .ok frames →
        later.disk = made.setContent node (Frame.magic ++ frames) →
          post (.ok ⟨path, records.length, (Frame.magic ++ frames).length⟩,
            { store' with nextId := store'.nextId + 1, live := store'.live ++ [path] }) later)
    (undone : ∀ path store' disk node made error (later : Host), prepared path store' disk →
      disk.create path = (.ok node, made) → (∀ size, error ≠ .bufferTooLarge size) →
        store'.dump format records = .error error → later.disk = (made.remove path).2 →
          post (.error error, { store' with
            nextId := store'.nextId + 1, live := (store'.live ++ [path]).filter (· ≠ path) }) later)
    (abandoned : ∀ path store' disk node made size (later : Host), prepared path store' disk →
      disk.create path = (.ok node, made) → store'.dump format records = .error (.bufferTooLarge size) →
        later.disk = made →
          post (.error (.bufferTooLarge size),
            { store' with nextId := store'.nextId + 1, live := store'.live ++ [path] }) later) :
    Ensures (store.write format records) host post := by
  simp only [write]
  rw [Ensures.bind_iff]
  apply ensured.mono
  rintro ⟨answer, store'⟩ middle ready
  cases answer with
  | error error => exact ready
  | ok directory =>
    dsimp only at ready ⊢
    generalize SpillPath.mk directory (runName store'.nextId) = path at ready
    rw [Ensures.bind_iff, Ensures.onDisk_iff]
    rcases created : middle.disk.create path with ⟨error | node, made⟩
    · exact taken path store' middle.disk error _ ready created
    · dsimp only
      split
      · next frames dumped =>
        rw [Ensures.bind_iff, Ensures.onDisk_iff, Ensures.bind_iff]
        exact Ensures.report fun later same =>
          written path store' middle.disk node made frames later ready created dumped same
      · next size dumped =>
        rw [Ensures.bind_iff]
        exact Ensures.lackMemory fun later same =>
          abandoned path store' middle.disk node made size later ready created dumped same
      · next error there dumped =>
        rw [Ensures.bind_iff]
        apply (removeLive_spec _ path _).mono
        rintro ⟨answer, store''⟩ later ⟨removed, answer_eq, store_eq⟩
        -- The file was made just now, so nothing keeps it from being deleted.
        dsimp only at removed answer_eq store_eq
        rw [Disk.remove_of_created created] at answer_eq
        cases answer_eq
        rw [store_eq]
        exact undone path store' middle.disk node made error later ready created there dumped removed

/-- What is known once the directory of the store is there, and nothing else has changed. -/
structure Prepared (store : SpillStore) (before : Disk) (path : SpillPath) (store' : SpillStore) (disk : Disk) :
    Prop where
  within : before.Within (store.directory = some ·) disk
  sound : disk.Sound
  store_eq : store' = { store with directory := some path.directory }
  ready : store'.Ready disk
  since : store.directory = some path.directory ∨ store.directory = none ∧ before.nextDirectory ≤ path.directory
  entries_eq : disk.entries = before.entries
  allowed : store.barred? before = none
  name_eq : path.name = runName store.nextId

section

variable {store store' : SpillStore} {before disk after : Disk} {path : SpillPath}

theorem Prepared.hasDirectory (prepared : store.Prepared before path store' disk) : disk.hasDirectory path.directory :=
  prepared.ready.present path.directory (congrArg SpillStore.directory prepared.store_eq)

theorem Prepared.free (prepared : store.Prepared before path store' disk) : disk.entry? path = none := by
  obtain ⟨-, -, rfl, ready, -, -, -, name_eq⟩ := prepared
  have free := ready.free path.directory store.nextId rfl (Nat.le_refl _)
  rwa [← name_eq] at free

theorem Prepared.create (prepared : store.Prepared before path store' disk) :
    disk.create path = (.ok disk.contents.size, disk.withFile path []) :=
  Disk.create_of_free prepared.hasDirectory prepared.free

theorem Prepared.dump_eq (prepared : store.Prepared before path store' disk) (format : SpillFormat α)
    (records : List α) : store'.dump format records = store.dump format records := by
  rw [prepared.store_eq]
  rfl

/-- What happens in the directory of the store happens within what the store has. -/
theorem Prepared.within_of (prepared : store.Prepared before path store' disk)
    (inner : disk.Within (path.directory = ·) after) : before.Within (store.directory = some ·) after := by
  refine prepared.within.trans inner ?_
  rintro other rfl
  exact prepared.since.imp_right And.right

/-- With its content in its file the run is written. -/
theorem Prepared.wrote {format : SpillFormat α} {records : List α} {frames : Bytes}
    (prepared : store.Prepared before path store' disk) (encoded : Frame.encodeAll format records = .ok frames) :
    store.Wrote format records before ⟨path, records.length, (Frame.magic ++ frames).length⟩
      { store' with nextId := store'.nextId + 1, live := store'.live ++ [path] }
      (disk.withFile path (Frame.magic ++ frames)) := by
  have free := prepared.free
  obtain ⟨-, -, rfl, ready, since, entries_eq, -, name_eq⟩ := prepared
  refine ⟨⟨rfl, disk.contents.size, frames, ?_, encoded, ?_, rfl⟩, ?_, rfl, rfl, rfl, since, ?_⟩
  · exact (Disk.entry?_withFile ..).trans (if_pos rfl)
  · exact (Disk.content_withFile ..).trans (if_pos rfl)
  · exact ready.withFile (congrArg (SpillPath.mk path.directory) name_eq.symm) _ _
  · intro other present
    have entry_eq : disk.entry? other = before.entry? other := by
      simp only [ Disk.entry?]
      rw [entries_eq]
    rw [Disk.entry?_withFile, if_neg, entry_eq]
    rintro rfl
    exact present (entry_eq ▸ free)

end

/-- Writing to a store that is ready fails for want of a directory, or of frames, or gives the file its content, or
leaves it empty for want of a buffer. -/
theorem write_ready {store : SpillStore} {format : SpillFormat α} {records : List α} {host : Host}
    {post : Except SpillError SpillHandle × SpillStore → Host → Prop} (ready : store.Ready host.disk)
    (sound : host.disk.Sound)
    (refused : ∀ error (later : Host), store.barred? host.disk = some error → later.disk = host.disk →
      post (.error (.temporaryDirectory error), store) later)
    (written : ∀ path store' disk frames (later : Host), store.Prepared host.disk path store' disk →
      store.dump format records = .ok frames → later.disk = disk.withFile path (Frame.magic ++ frames) →
        post (.ok ⟨path, records.length, (Frame.magic ++ frames).length⟩,
          { store' with nextId := store'.nextId + 1, live := store'.live ++ [path] }) later)
    (undone : ∀ path store' disk error (later : Host), store.Prepared host.disk path store' disk →
      (∀ size, error ≠ .bufferTooLarge size) → store.dump format records = .error error →
        later.disk = ((disk.withFile path []).remove path).2 →
          post (.error error, { store' with
            nextId := store'.nextId + 1, live := (store'.live ++ [path]).filter (· ≠ path) }) later)
    (abandoned : ∀ path store' disk size (later : Host), store.Prepared host.disk path store' disk →
      store.dump format records = .error (.bufferTooLarge size) → later.disk = disk.withFile path [] →
        post (.error (.bufferTooLarge size),
          { store' with nextId := store'.nextId + 1, live := store'.live ++ [path] }) later) :
    Ensures (store.write format records) host post := by
  refine write_rule (store.Prepared host.disk) ?_ ?_ ?_ ?_ ?_
  · apply (ensureDirectory_spec ready sound).mono
    rintro ⟨answer, store'⟩ middle ⟨within, sound', outcome⟩
    cases answer with
    | error error =>
      obtain ⟨barred, rfl, same⟩ := outcome
      exact refused error middle barred same
    | ok directory =>
      obtain ⟨rfl, ready', since, entries_eq, allowed⟩ := outcome
      exact ⟨within, sound', rfl, ready', since, entries_eq, allowed, rfl⟩
  · intro path store' disk error later prepared failed
    cases failed.symm.trans prepared.create
  · intro path store' disk node made frames later prepared created dumped content_eq
    obtain ⟨⟨⟩, rfl⟩ := Prod.mk.inj (created.symm.trans prepared.create)
    rw [Disk.setContent_withFile] at content_eq
    exact written path store' disk frames later prepared (prepared.dump_eq format records ▸ dumped) content_eq
  · intro path store' disk node made error later prepared created there dumped removed
    obtain ⟨⟨⟩, rfl⟩ := Prod.mk.inj (created.symm.trans prepared.create)
    exact undone path store' disk error later prepared there (prepared.dump_eq format records ▸ dumped) removed
  · intro path store' disk node made size later prepared created dumped left
    obtain ⟨⟨⟩, rfl⟩ := Prod.mk.inj (created.symm.trans prepared.create)
    exact abandoned path store' disk size later prepared (prepared.dump_eq format records ▸ dumped) left

/-- A run that has been written is in its file, and no other file is touched. -/
theorem write_spec {store : SpillStore} {format : SpillFormat α} {records : List α} {host : Host}
    (ready : store.Ready host.disk) (sound : host.disk.Sound) :
    Ensures (store.write format records) host fun result later =>
      host.disk.Within (store.directory = some ·) later.disk ∧ later.disk.Sound ∧
        match result.1 with
        | .error _ => ¬ store.Accepts format records host.disk
        | .ok handle => store.Wrote format records host.disk handle result.2 later.disk := by
  have dump_outcome := store.dump_spec format records
  refine write_ready ready sound ?_ ?_ ?_ ?_
  · intro error later barred same
    rw [same]
    refine ⟨.refl _ _, sound, fun accepts => ?_⟩
    cases barred.symm.trans accepts.barred?_eq_none
  · intro path store' disk frames later prepared dumped content_eq
    rw [dumped] at dump_outcome
    rw [content_eq]
    exact ⟨prepared.within_of (.withFile (.inl rfl) _), prepared.sound.withFile prepared.hasDirectory _,
      prepared.wrote dump_outcome⟩
  · intro path store' disk error later prepared _ dumped removed
    have inner : disk.Within (path.directory = ·) ((disk.withFile path []).remove path).2 :=
      (Disk.Within.withFile (.inl rfl) []).trans (.remove rfl) fun _ => .inl
    rw [dumped] at dump_outcome
    rw [removed]
    refine ⟨prepared.within_of inner, (prepared.sound.withFile prepared.hasDirectory []).remove path, ?_⟩
    exact fun accepts => dump_outcome ⟨accepts.buffer, accepts.fits⟩
  · intro path store' disk size later prepared dumped left
    rw [dumped] at dump_outcome
    rw [left]
    refine ⟨prepared.within_of (.withFile (.inl rfl) []), prepared.sound.withFile prepared.hasDirectory [], ?_⟩
    exact fun accepts => dump_outcome ⟨accepts.buffer, accepts.fits⟩

/-- A run that has been written has the next name, and it is the only new one. -/
theorem write_names {store : SpillStore} {format : SpillFormat α} {records : List α} {host : Host}
    (ready : store.Ready host.disk) (sound : host.disk.Sound) :
    Ensures (store.write format records) host fun result later => ∀ handle, result.1 = .ok handle →
      handle.path.name = runName store.nextId ∧ result.2.nextId = store.nextId + 1 ∧
        ∀ path, later.disk.entry? path ≠ none → path = handle.path ∨ host.disk.entry? path ≠ none := by
  refine write_ready ready sound (fun _ _ _ _ => nofun) ?_ (fun _ _ _ _ _ _ _ _ _ => nofun)
    (fun _ _ _ _ _ _ _ _ => nofun)
  rintro path store' disk frames later prepared - content_eq handle ⟨⟩
  refine ⟨prepared.name_eq, by rw [prepared.store_eq], ?_⟩
  intro other present
  rw [content_eq, Disk.entry?_withFile] at present
  by_cases same : other = path
  · exact .inl same
  · rw [if_neg same] at present
    refine .inr ?_
    simpa only [Disk.entry?, prepared.entries_eq] using present

/-- Why records are not written: the store has no directory and can have none, or they have no frames. -/
def refusal? (store : SpillStore) (format : SpillFormat α) (records : List α) (disk : Disk) : Option SpillError :=
  match store.barred? disk, store.dump format records with
  | some error, _ => some (.temporaryDirectory error)
  | none, .error error => some error
  | none, .ok _ => none

/-- Nothing else keeps a store that is ready from writing. -/
theorem write_refusal {store : SpillStore} {host : Host} (ready : store.Ready host.disk) (sound : host.disk.Sound)
    (format : SpillFormat α) (records : List α) :
    Ensures (store.write format records) host fun result _ =>
      match store.refusal? format records host.disk with
      | some error => result.1 = .error error
      | none => ∃ handle, result.1 = .ok handle := by
  refine write_ready ready sound ?_ ?_ ?_ ?_
  · intro error later barred _
    simp only [refusal?, barred]
  · intro path store' disk frames later prepared dumped _
    simp only [refusal?, prepared.allowed, dumped]
    exact ⟨_, rfl⟩
  · intro path store' disk error later prepared _ dumped _
    simp only [refusal?, prepared.allowed, dumped]
  · intro path store' disk size later prepared dumped _
    simp only [refusal?, prepared.allowed, dumped]

/-! ## Refused records -/

theorem dump_of_not_fits (store : SpillStore) {format : SpillFormat α} {record : α} {records : List α}
    (unfit : ¬ format.Fits record) : ∃ error, store.dump format (record :: records) = .error error := by
  have dumped := store.dump_spec format (record :: records)
  cases answer : store.dump format (record :: records) with
  | error error => exact ⟨error, rfl⟩
  | ok frames =>
    rw [answer] at dumped
    obtain ⟨frame, rest, first, -⟩ := Frame.encodeAll_cons_eq_ok dumped
    obtain ⟨payload, stored, small, -⟩ := Frame.encode_eq_ok first
    exact absurd ⟨payload, stored, small⟩ unfit

theorem dump_of_unbuffered {store : SpillStore}
    (lacking : BufferedFile.capacityLimit < store.bufferSize.getD BufferedFile.standardCapacity)
    (format : SpillFormat α) (records : List α) : ∃ error, store.dump format records = .error error :=
  ⟨_, if_neg (Nat.not_le.mpr lacking)⟩

theorem bufferSize_ensureDirectory (store : SpillStore) (host : Host) :
    Ensures store.ensureDirectory host fun result _ => result.2.bufferSize = store.bufferSize := by
  simp only [ensureDirectory]
  split
  · rfl
  · rw [Ensures.bind_iff, Ensures.onDisk_iff]
    split <;> rfl

/-- Records without frames are not written. -/
theorem write_refused {store : SpillStore} {format : SpillFormat α} {records : List α} {error : SpillError}
    (refused : store.dump format records = .error error) (host : Host) :
    Ensures (store.write format records) host fun result _ => ∃ error, result.1 = .error error := by
  refine write_rule (fun _ store' _ => store'.bufferSize = store.bufferSize) ?_ ?_ ?_ ?_ ?_
  · apply (store.bufferSize_ensureDirectory host).mono
    rintro ⟨answer, store'⟩ middle same
    cases answer with
    | error error => exact ⟨_, rfl⟩
    | ok directory => exact same
  · exact fun _ _ _ _ _ _ _ => ⟨_, rfl⟩
  · intro path store' disk node made frames later same _ dumped
    have refused' : store'.dump format records = .error error := by simpa only [dump, same] using refused
    cases dumped.symm.trans refused'
  · exact fun _ _ _ _ _ _ _ _ _ _ _ _ => ⟨_, rfl⟩
  · exact fun _ _ _ _ _ _ _ _ _ _ _ => ⟨_, rfl⟩

/-! ## Opening -/

/-- The file of a run is opened behind its header. -/
theorem openReader_found (store : SpillStore) {format : SpillFormat α} {handle : SpillHandle} {records : List α}
    {host : Host} (holds : handle.Holds format records host.disk) :
    Ensures (store.openReader format handle) host fun result later => later = host ∧ ∃ node frames file,
      host.disk.entry? handle.path = some (.file node) ∧ Frame.encodeAll format records = .ok frames ∧
        host.disk.content node = Frame.magic ++ frames ∧
          (BufferedFile.start node (store.bufferSize.getD BufferedFile.standardCapacity)).readExact?
            Frame.magic.length host.disk = some (Frame.magic, file) ∧
              result = .ok ⟨format, some file, handle.path, records.length, frames.length, false⟩ := by
  obtain ⟨records_eq, node, frames, found, encoded, content_eq, size_eq⟩ := holds
  unfold openReader
  rw [Ensures.bind_iff, Ensures.get_iff]
  dsimp only
  rw [found]
  dsimp only
  rw [if_neg (by simp [content_eq, size_eq])]
  generalize capacity_eq : store.bufferSize.getD BufferedFile.standardCapacity = capacity
  have part : host.disk.content (BufferedFile.start node capacity).node <+: Frame.magic ++ frames :=
    content_eq ▸ List.prefix_refl _
  obtain ⟨-, cut⟩ | ⟨file, got, -⟩ := BufferedFile.readExact?_cases Frame.magic.length part (by simp)
  · exact absurd content_eq cut
  · rw [BufferedFile.unread_start, List.take_left' rfl] at got
    rw [got]
    dsimp only
    rw [if_neg (by simp)]
    have left_eq : handle.size - Frame.magic.length = frames.length := by simp [size_eq]
    rw [records_eq, left_eq]
    exact ⟨rfl, node, frames, file, rfl, encoded, content_eq, got, rfl⟩

/-- A run in its file can be opened, and all its records are to come. -/
theorem openReader_spec {store : SpillStore} {format : SpillFormat α} {handle : SpillHandle} {records : List α}
    {host : Host} (cut : Prop) {own : Nat → Prop} (holds : handle.Holds format records host.disk)
    (sound : host.disk.Sound) (restores : format.Restores) (owned : own handle.path.directory) :
    Ensures (store.openReader format handle) host fun result later =>
      later = host ∧ ∃ reader, result = .ok reader ∧ reader.Tracks cut own records host.disk := by
  apply (store.openReader_found holds).mono
  rintro result later ⟨rfl, node, frames, file, found, encoded, content_eq, got, rfl⟩
  generalize store.bufferSize.getD BufferedFile.standardCapacity = capacity at got
  have part : later.disk.content (BufferedFile.start node capacity).node <+: Frame.magic ++ frames :=
    content_eq ▸ List.prefix_refl _
  obtain ⟨-, cut⟩ | ⟨file', got', node_eq, unread_eq⟩ :=
    BufferedFile.readExact?_cases Frame.magic.length part (by simp)
  · exact absurd content_eq cut
  · cases got.symm.trans got'
    rw [BufferedFile.unread_start, List.drop_left' rfl] at unread_eq
    have node_eq' : file.node = node := node_eq
    refine ⟨rfl, _, rfl, owned, restores, rfl, fun _ => ⟨file, Frame.magic ++ frames, rfl, ?_, ?_, ?_, ?_, ?_⟩⟩
    · rw [unread_eq]
      exact encoded
    · rw [unread_eq]
    · rw [node_eq']
      exact sound.node_lt _ _ found
    · rw [node_eq', content_eq]
    · intro _
      rw [node_eq', content_eq]

end SpillStore

end SpillSort
