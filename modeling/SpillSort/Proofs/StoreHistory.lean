import SpillSort.Proofs.Directories
import SpillSort.Proofs.Memory
import SpillSort.Proofs.Removal
import SpillSort.Spill.Calls

/-! # What a store keeps over its history

A store is a map from handles to runs. Writing a run adds to it under a name that was never used before, disposing
of a run takes it away, and nothing else changes it: not a write that fails, nor what is done to other runs, nor
that the store was closed in between. While a run is kept its file has the frames of its records and nothing else,
and reading it gives them in order. A write that is given up for want of a buffer leaves an empty file that is no
run, and all else alone.
-/

namespace SpillSort

variable {α : Type}

/-! ## Reading a run to its end -/

/-- A reader gives all records of its run, and then its end. -/
theorem SpillReader.collect_eq {reader : SpillReader α} {records : List α} {own : Nat → Prop} {host : Host}
    (tracks : reader.Tracks False own records host.disk) : (reader.collect host).1.1 = .ok records := by
  induction records generalizing reader host with
  | nil =>
    unfold collect
    have given := next_spec tracks
    split
    · rfl
    · next ran =>
      obtain ⟨-, delivered⟩ := given.of_run ran
      cases delivered with
      | faulty failed missing => exact absurd rfl missing
    · next ran =>
      obtain ⟨-, delivered⟩ := given.of_run ran
      cases delivered
  | cons record records ih =>
    unfold collect
    have given := next_spec tracks
    split
    · next ran =>
      obtain ⟨-, delivered⟩ := given.of_run ran
      cases delivered
    · next ran =>
      obtain ⟨-, delivered⟩ := given.of_run ran
      cases delivered with
      | faulty failed => exact failed.1.elim
    · next ran =>
      obtain ⟨-, delivered⟩ := given.of_run ran
      cases delivered with
      | record rest => simp only [ih rest, Except.map]

/-- The length of the frames of some records: four bytes for each, and the payloads. -/
theorem Frame.length_encodeAll {format : SpillFormat α} {records : List α} {frames : Bytes}
    (encoded : encodeAll format records = .ok frames) :
    ∃ payloads, List.Forall₂ (fun record payload => format.encode record = .ok payload) records payloads ∧
      frames.length = lengthWidth * records.length + payloads.flatten.length := by
  induction records generalizing frames with
  | nil =>
    cases encoded
    exact ⟨[], .nil, rfl⟩
  | cons record records ih =>
    obtain ⟨frame, rest, first, others, rfl⟩ := encodeAll_cons_eq_ok encoded
    obtain ⟨payload, stored, -, rfl⟩ := encode_eq_ok first
    obtain ⟨payloads, stored', length_eq⟩ := ih others
    refine ⟨payload :: payloads, .cons stored stored', ?_⟩
    simp only [List.length_append, length_eq, Bytes.length_littleEndian, List.length_cons, List.flatten_cons,
      Nat.mul_add_one]
    omega

namespace SpillStore

variable {store : SpillStore} {format : SpillFormat α} {host : Host}

/-! ## Names -/

/-- A run that is written takes the next name, and no name is given twice. -/
theorem write_name (store : SpillStore) (format : SpillFormat α) (records : List α) (host : Host) :
    Ensures (store.write format records) host fun result _ => store.nextId ≤ result.2.nextId ∧
      ∀ handle, result.1 = .ok handle →
        handle.path.name = runName store.nextId ∧ result.2.nextId = store.nextId + 1 := by
  refine write_rule (fun path store' _ => store'.nextId = store.nextId ∧ path.name = runName store.nextId)
    ?_ ?_ ?_ ?_ ?_
  · apply Ensures.intro
    rintro ⟨answer, store'⟩ middle ran
    have same : store'.nextId = store.nextId := by
      have ensured : Ensures store.ensureDirectory host fun result _ => result.2.nextId = store.nextId := by
        simp only [ensureDirectory]
        split
        · rfl
        · rw [Ensures.bind_iff, Ensures.onDisk_iff]
          split <;> rfl
      exact ensured.of_run ran
    cases answer with
    | error error => exact ⟨Nat.le_of_eq same.symm, by rintro _ ⟨⟩⟩
    | ok directory => exact ⟨same, congrArg runName same⟩
  · rintro path store' disk error later ⟨same, -⟩ -
    exact ⟨same ▸ Nat.le_succ _, by rintro _ ⟨⟩⟩
  · rintro path store' disk node made frames later ⟨same, name_eq⟩ - - -
    refine ⟨same ▸ Nat.le_succ _, ?_⟩
    rintro handle ⟨⟩
    exact ⟨name_eq, congrArg (· + 1) same⟩
  · rintro path store' disk node made error later ⟨same, -⟩ - - - -
    exact ⟨same ▸ Nat.le_succ _, by rintro _ ⟨⟩⟩
  · rintro path store' disk node made size later ⟨same, -⟩ - - -
    exact ⟨same ▸ Nat.le_succ _, by rintro _ ⟨⟩⟩

theorem perform_name (store : SpillStore) (format : SpillFormat α) (call : StoreCall α) (host : Host) :
    Ensures (store.perform format call) host fun result _ => store.nextId ≤ result.2.nextId ∧
      ∀ handle, result.1.handle? = some handle →
        handle.path.name = runName store.nextId ∧ result.2.nextId = store.nextId + 1 := by
  simp only [perform]
  cases call with
  | write records =>
    rw [Ensures.bind_iff]
    apply (store.write_name format records host).mono
    rintro ⟨answer, store'⟩ later ⟨onward, named⟩
    cases answer with
    | error error => exact ⟨onward, nofun⟩
    | ok handle =>
      refine ⟨onward, ?_⟩
      rintro other ⟨⟩
      exact named handle rfl
  | openReader handle =>
    rw [Ensures.bind_iff]
    exact Ensures.intro fun _ _ _ => ⟨Nat.le_refl _, nofun⟩
  | dispose handle =>
    rw [Ensures.bind_iff]
    apply (store.removeLive_spec handle.path host).mono
    rintro ⟨answer, store'⟩ later ⟨-, -, store_eq⟩
    have same := congrArg SpillStore.nextId store_eq
    exact ⟨Nat.le_of_eq same.symm, nofun⟩
  | disposeAll =>
    simp only [disposeAll]
    rw [Ensures.bind_iff, Ensures.bind_iff]
    exact Ensures.intro fun _ _ _ => ⟨Nat.le_refl _, nofun⟩
  | close =>
    rw [Ensures.bind_iff]
    apply (store.close_store host).mono
    rintro ⟨answer, store'⟩ later rfl
    exact ⟨Nat.le_refl _, nofun⟩

/-- All runs that are ever written have different names. -/
theorem play_names (store : SpillStore) (format : SpillFormat α) (calls : List (StoreCall α)) (host : Host) :
    Ensures (store.play format calls) host fun used _ =>
      ((used.1.filterMap StoreAnswer.handle?).map SpillHandle.path).Nodup ∧
        ∀ handle ∈ used.1.filterMap StoreAnswer.handle?, ∃ id, store.nextId ≤ id ∧ handle.path.name = runName id := by
  induction calls generalizing store host with
  | nil => exact ⟨.nil, nofun⟩
  | cons call calls ih =>
    simp only [play]
    rw [Ensures.bind_iff]
    apply (store.perform_name format call host).mono
    rintro ⟨answer, store'⟩ later ⟨onward, named⟩
    rw [Ensures.bind_iff]
    apply (ih store' later).mono
    rintro ⟨answers, store''⟩ last ⟨distinct, others⟩
    have others' : ∀ handle ∈ answers.filterMap StoreAnswer.handle?, ∃ id, store.nextId ≤ id ∧
        handle.path.name = runName id := fun handle present =>
      (others handle present).imp fun _ found => ⟨Nat.le_trans onward found.1, found.2⟩
    rw [Ensures.pure_iff]
    cases written : answer.handle? with
    | none => simpa only [List.filterMap_cons, written] using ⟨distinct, others'⟩
    | some handle =>
      obtain ⟨name_eq, nextId_eq⟩ := named handle written
      simp only [List.filterMap_cons, written, List.map_cons, List.nodup_cons, List.forall_mem_cons]
      refine ⟨⟨?_, distinct⟩, ⟨_, Nat.le_refl _, name_eq⟩, others'⟩
      intro present
      obtain ⟨other, among, path_eq⟩ := List.mem_map.mp present
      obtain ⟨id, bound, name_eq'⟩ := others other among
      rw [path_eq, name_eq] at name_eq'
      have same := runName_injective name_eq'
      dsimp only at nextId_eq bound
      omega

end SpillStore

/-! ## What is to be kept -/

/-- The runs to be kept after a call. -/
def StoreCall.enter (ledger : List (SpillHandle × List α)) :
    StoreCall α → StoreAnswer α → List (SpillHandle × List α)
  | .write records, .written (.ok handle) => ledger ++ [(handle, records)]
  | .dispose handle, _ => ledger.filter (·.1.path ≠ handle.path)
  | .disposeAll, _ | .close, _ => []
  | _, _ => ledger

/-- The runs to be kept after some calls: those written and not disposed of, with what was written. -/
def ledger (calls : List (StoreCall α)) (answers : List (StoreAnswer α)) : List (SpillHandle × List α) :=
  (calls.zip answers).foldl (fun kept asked => asked.1.enter kept asked.2) []

/-- Whether there may be files of no run after a call. A write that is given up leaves one, and disposing of all files
leaves none. -/
def StoreCall.litter (littered : Bool) : StoreCall α → StoreAnswer α → Bool
  | .write _, .written (.error (.bufferTooLarge _)) => true
  | .disposeAll, _ | .close, _ => false
  | _, _ => littered

/-- A write that fails leaves no file. -/
theorem StoreCall.litter_of_failed {error : SpillError} (there : ∀ size, error ≠ .bufferTooLarge size) {littered : Bool}
    {records : List α} : (write records).litter littered (.written (.error error)) = littered := by
  cases error with
  | bufferTooLarge size => exact absurd rfl (there size)
  | temporaryDirectory _ | io _ | encode _ | decode _ => rfl

/-- Whether a write was given up since all files were last disposed of. -/
def litterAfter (calls : List (StoreCall α)) (answers : List (StoreAnswer α)) : Bool :=
  (calls.zip answers).foldl (fun littered asked => asked.1.litter littered asked.2) false

namespace SpillStore

variable {store : SpillStore} {format : SpillFormat α} {kept : List (SpillHandle × List α)} {bufferSize : Option Nat}
  {littered : Bool} {host : Host}

/-- The live files are there, in the directory of the store and under names that were given out. -/
structure InPlace (store : SpillStore) (disk : Disk) : Prop where
  ready : store.Ready disk
  housed : store.Housed
  named : ∀ path ∈ store.live, ∃ id < store.nextId, path.name = runName id
  files : ∀ path ∈ store.live, ∃ node, disk.entry? path = some (.file node)

/-- The store has just these runs, each in its file, and no other files unless a write was given up. -/
structure Keeps (format : SpillFormat α) (bufferSize : Option Nat) (store : SpillStore)
    (kept : List (SpillHandle × List α)) (littered : Bool) (disk : Disk) : Prop where
  sound : disk.Sound
  inPlace : store.InPlace disk
  bufferSize_eq : store.bufferSize = bufferSize
  listed : ∀ entry ∈ kept, entry.1.path ∈ store.live
  live_eq : littered = false → store.live = kept.map (·.1.path)
  lacking : littered = true → BufferedFile.capacityLimit < bufferCapacity bufferSize
  holds : ∀ entry ∈ kept, entry.1.Holds format entry.2 disk

theorem keeps_new {disk : Disk} (place : Place) (bufferSize : Option Nat) (sound : disk.Sound) :
    (new place bufferSize).Keeps format bufferSize [] false disk :=
  ⟨sound, ⟨ready_new place bufferSize disk, nofun, nofun, nofun⟩, rfl, nofun, fun _ => rfl, nofun, nofun⟩

/-- A store is ready for its next runs as long as no names come up and no directory goes away. -/
theorem Ready.later {disk disk' : Disk} (ready : store.Ready disk)
    (present : ∀ directory, disk.hasDirectory directory → disk'.hasDirectory directory)
    (free : ∀ path, disk.entry? path = none → disk'.entry? path = none) {nextId : Nat} (onward : store.nextId ≤ nextId)
    (live : List SpillPath) : { store with nextId, live }.Ready disk' :=
  ⟨fun directory mine => present directory (ready.present directory mine),
    fun directory id mine later => free _ (ready.free directory id mine (Nat.le_trans onward later))⟩

/-- The next name is none of those of the live files. -/
theorem InPlace.fresh {disk : Disk} (inPlace : store.InPlace disk) {path : SpillPath}
    (name_eq : path.name = runName store.nextId) : path ∉ store.live := by
  intro live
  obtain ⟨id, bound, name_eq'⟩ := inPlace.named path live
  rw [name_eq] at name_eq'
  exact Nat.ne_of_lt bound (runName_injective name_eq').symm

theorem Prepared.entry?_eq {before disk : Disk} {path : SpillPath} {store' : SpillStore}
    (prepared : store.Prepared before path store' disk) (other : SpillPath) : disk.entry? other = before.entry? other := by
  simp only [ Disk.entry?]
  rw [prepared.entries_eq]

/-- A file that was made in vain leaves no trace among the names. -/
theorem Prepared.entry?_undone {before disk : Disk} {path : SpillPath} {store' : SpillStore}
    (prepared : store.Prepared before path store' disk) (other : SpillPath) :
    Disk.entry? ((disk.withFile path []).remove path).2 other = before.entry? other := by
  rw [Disk.remove_of_created prepared.create, Disk.entry?_forget, Disk.entry?_withFile]
  split
  · next same => rw [← prepared.entry?_eq, same, prepared.free]
  · exact prepared.entry?_eq other

/-- A run stays in its file while its name and all contents stay what they are. -/
theorem Keeps.holds_of_within {own : Nat → Prop} {disk disk' : Disk} {entry : SpillHandle × List α}
    (keeps : store.Keeps format bufferSize kept littered disk) (present : entry ∈ kept) (within : disk.Within own disk')
    (same : disk.entry? entry.1.path ≠ none → disk'.entry? entry.1.path = disk.entry? entry.1.path) :
    entry.1.Holds format entry.2 disk' := by
  refine (keeps.holds entry present).stable fun node found => ⟨?_, ?_⟩
  · rw [same (by rw [found]; exact Option.some_ne_none _), found]
  · exact within.content_eq node (keeps.sound.node_lt _ _ found)

section

variable {path : SpillPath} {store' : SpillStore} {disk : Disk}

/-- No name that there was changes while a file is made. -/
theorem Prepared.entry?_added (prepared : store.Prepared host.disk path store' disk) (bytes : Bytes) {other : SpillPath}
    (present : host.disk.entry? other ≠ none) :
    Disk.entry? (disk.withFile path bytes) other = host.disk.entry? other := by
  rw [Disk.entry?_withFile, if_neg, prepared.entry?_eq]
  rintro rfl
  exact present ((prepared.entry?_eq other).symm.trans prepared.free)

/-- A file that was made is live with the others. -/
theorem InPlace.added (inPlace : store.InPlace host.disk) (prepared : store.Prepared host.disk path store' disk)
    (bytes : Bytes) :
    { store' with nextId := store'.nextId + 1, live := store'.live ++ [path] }.InPlace (disk.withFile path bytes) := by
  have store_eq := prepared.store_eq
  have path_eq : SpillPath.mk path.directory (runName store'.nextId) = path := by
    rw [store_eq]
    exact congrArg (SpillPath.mk path.directory) prepared.name_eq.symm
  refine ⟨prepared.ready.withFile path_eq _ _, ?_, ?_, ?_⟩
  · intro other live
    rw [store_eq] at live ⊢
    rcases List.mem_append.mp live with old | new
    · rcases prepared.since with former | ⟨missing, -⟩
      · exact former.symm.trans (inPlace.housed other old)
      · cases missing.symm.trans (inPlace.housed other old)
    · rw [List.mem_singleton.mp new]
  · intro other live
    rw [store_eq] at live ⊢
    rcases List.mem_append.mp live with old | new
    · exact (inPlace.named other old).imp fun _ found => ⟨Nat.lt_succ_of_lt found.1, found.2⟩
    · rw [List.mem_singleton.mp new]
      exact ⟨_, Nat.lt_succ_self _, prepared.name_eq⟩
  · intro other live
    rw [store_eq] at live
    rcases List.mem_append.mp live with old | new
    · obtain ⟨node, found⟩ := inPlace.files other old
      exact ⟨node, (prepared.entry?_added bytes (found ▸ Option.some_ne_none _)).trans found⟩
    · rw [List.mem_singleton.mp new, Disk.entry?_withFile, if_pos rfl]
      exact ⟨_, rfl⟩

/-- With the file removed again the live files are what they were. -/
theorem InPlace.undone (inPlace : store.InPlace host.disk) (prepared : store.Prepared host.disk path store' disk) :
    { store' with nextId := store'.nextId + 1, live := store.live }.InPlace ((disk.withFile path []).remove path).2 := by
  refine ⟨?_, ?_, ?_, ?_⟩
  · refine prepared.ready.later ?_ ?_ (Nat.le_succ _) _
    · intro directory there
      rw [Disk.remove_of_created prepared.create]
      exact there
    · intro other missing
      rw [prepared.entry?_undone, ← prepared.entry?_eq]
      exact missing
  · intro other live
    rw [prepared.store_eq]
    rcases prepared.since with former | ⟨missing, -⟩
    · exact former.symm.trans (inPlace.housed other live)
    · cases missing.symm.trans (inPlace.housed other live)
  · intro other live
    rw [prepared.store_eq]
    exact (inPlace.named other live).imp fun _ found => ⟨Nat.lt_succ_of_lt found.1, found.2⟩
  · intro other live
    rw [prepared.entry?_undone]
    exact inPlace.files other live

private theorem Keeps.written (keeps : store.Keeps format bufferSize kept littered host.disk) {records : List α}
    {frames : Bytes} (prepared : store.Prepared host.disk path store' disk)
    (encoded : Frame.encodeAll format records = .ok frames) :
    { store' with nextId := store'.nextId + 1, live := store'.live ++ [path] }.Keeps format bufferSize
      (kept ++ [(SpillHandle.mk path records.length (Frame.magic ++ frames).length, records)]) littered
      (disk.withFile path (Frame.magic ++ frames)) := by
  have wrote := prepared.wrote encoded
  have within := prepared.within_of (.withFile (.inl rfl) (Frame.magic ++ frames))
  have live_eq : store'.live = store.live := by rw [prepared.store_eq]
  refine ⟨prepared.sound.withFile prepared.hasDirectory _, keeps.inPlace.added prepared _,
    wrote.bufferSize_eq.trans keeps.bufferSize_eq, ?_, ?_, keeps.lacking, ?_⟩
  · intro entry present
    dsimp only
    rw [live_eq]
    rcases List.mem_append.mp present with old | new
    · exact List.mem_append_left _ (keeps.listed entry old)
    · rw [List.mem_singleton.mp new]
      exact List.mem_append_right _ (List.mem_singleton_self path)
  · intro tidy
    dsimp only
    rw [live_eq, keeps.live_eq tidy, List.map_append]
    rfl
  · intro entry present
    rcases List.mem_append.mp present with old | new
    · exact keeps.holds_of_within old within (wrote.kept entry.1.path)
    · rw [List.mem_singleton.mp new]
      exact wrote.holds

private theorem Keeps.undone (keeps : store.Keeps format bufferSize kept littered host.disk)
    (prepared : store.Prepared host.disk path store' disk) :
    { store' with nextId := store'.nextId + 1, live := store.live }.Keeps format bufferSize kept littered
      ((disk.withFile path []).remove path).2 := by
  have inner : disk.Within (path.directory = ·) ((disk.withFile path []).remove path).2 :=
    (Disk.Within.withFile (.inl rfl) []).trans (.remove rfl) fun _ => .inl
  have bufferSize_eq : store'.bufferSize = store.bufferSize := by rw [prepared.store_eq]
  refine ⟨(prepared.sound.withFile prepared.hasDirectory []).remove path, keeps.inPlace.undone prepared,
    bufferSize_eq.trans keeps.bufferSize_eq, keeps.listed, keeps.live_eq, keeps.lacking, ?_⟩
  exact fun entry present => keeps.holds_of_within present (prepared.within_of inner) fun _ =>
    prepared.entry?_undone entry.1.path

private theorem Keeps.abandoned (keeps : store.Keeps format bufferSize kept littered host.disk)
    (prepared : store.Prepared host.disk path store' disk)
    (lacking : BufferedFile.capacityLimit < bufferCapacity bufferSize) :
    { store' with nextId := store'.nextId + 1, live := store'.live ++ [path] }.Keeps format bufferSize kept true
      (disk.withFile path []) := by
  have within := prepared.within_of (.withFile (.inl rfl) [])
  have live_eq : store'.live = store.live := by rw [prepared.store_eq]
  have bufferSize_eq : store'.bufferSize = store.bufferSize := by rw [prepared.store_eq]
  refine ⟨prepared.sound.withFile prepared.hasDirectory [], keeps.inPlace.added prepared [],
    bufferSize_eq.trans keeps.bufferSize_eq, fun entry present => ?_, nofun, fun _ => lacking, fun entry present => ?_⟩
  · exact List.mem_append_left _ (live_eq ▸ keeps.listed entry present)
  · exact keeps.holds_of_within present within (prepared.entry?_added [])

end

/-- A run that was written is kept beside the others. A write without a run leaves them and the names that there were,
and one that fails leaves the live files and all names. -/
theorem Keeps.write (keeps : store.Keeps format bufferSize kept littered host.disk) (records : List α) :
    Ensures (store.write format records) host fun result later =>
      result.2.Keeps format bufferSize ((StoreCall.write records).enter kept (.written result.1))
        ((StoreCall.write records).litter littered (.written result.1)) later.disk ∧
      ∀ error, result.1 = .error error →
        (∀ path, host.disk.entry? path ≠ none → later.disk.entry? path = host.disk.entry? path) ∧
        ((∀ size, error ≠ .bufferTooLarge size) → result.2.live = store.live ∧
          ∀ path, later.disk.entry? path = host.disk.entry? path) := by
  have dump_outcome := store.dump_spec format records
  refine write_ready keeps.inPlace.ready keeps.sound ?_ ?_ ?_ ?_
  · intro error later _ same
    rw [same]
    refine ⟨keeps, ?_⟩
    rintro _ ⟨⟩
    exact ⟨fun _ _ => rfl, fun _ => ⟨rfl, fun _ => rfl⟩⟩
  · intro path store' disk frames later prepared dumped content_eq
    rw [dumped] at dump_outcome
    rw [content_eq]
    refine ⟨keeps.written prepared dump_outcome, ?_⟩
    rintro _ ⟨⟩
  · intro path store' disk error later prepared there dumped removed
    -- The file made in vain is taken off the list again; its name is none of the others.
    have others : store.live.filter (· ≠ path) = store.live := by
      refine List.filter_eq_self.mpr fun other live => decide_eq_true fun same => ?_
      exact keeps.inPlace.fresh prepared.name_eq (same ▸ live)
    have live_eq : (store'.live ++ [path]).filter (· ≠ path) = store.live := by
      rw [prepared.store_eq, List.filter_append, others]
      simp
    rw [live_eq, removed, StoreCall.litter_of_failed there]
    refine ⟨keeps.undone prepared, ?_⟩
    rintro _ ⟨⟩
    exact ⟨fun path _ => prepared.entry?_undone path, fun _ => ⟨rfl, prepared.entry?_undone⟩⟩
  · intro path store' disk size later prepared dumped left
    obtain ⟨rfl, lacking⟩ := lt_of_dump_eq dumped
    rw [keeps.bufferSize_eq] at lacking
    rw [left]
    refine ⟨keeps.abandoned prepared lacking, ?_⟩
    rintro _ ⟨⟩
    exact ⟨fun _ present => prepared.entry?_added [] present, fun there => absurd rfl (there _)⟩

/-! ## Removing -/

/-- Live files that keep their names are in place while no names come up and no directory goes away. -/
theorem InPlace.fewer {disk disk' : Disk} (inPlace : store.InPlace disk) {live : List SpillPath}
    (remaining : ∀ path ∈ live, path ∈ store.live ∧ disk'.entry? path = disk.entry? path)
    (present : ∀ directory, disk.hasDirectory directory → disk'.hasDirectory directory)
    (free : ∀ path, disk.entry? path = none → disk'.entry? path = none) : { store with live }.InPlace disk' where
  ready := inPlace.ready.later present free (Nat.le_refl _) live
  housed path there := inPlace.housed path (remaining path there).1
  named path there := inPlace.named path (remaining path there).1
  files path there := by
    obtain ⟨former, same⟩ := remaining path there
    exact (inPlace.files path former).imp fun _ found => same.trans found

/-- What cannot be removed is not live, so a file that was to be deleted is not live afterwards. -/
theorem InPlace.liveAfter_eq {disk : Disk} (inPlace : store.InPlace disk) {path : SpillPath} {answer : Except FileError Unit}
    (answer_eq : answer = if (disk.remove path).1 = .error .notFound then .ok () else (disk.remove path).1) :
    store.liveAfter path answer = store.live.filter (· ≠ path) := by
  by_cases plain : disk.entry? path = some .directory
  · have refused : answer = .error .isDirectory := by
      rw [answer_eq]
      simp only [Disk.remove, plain]
      rfl
    rw [refused]
    have others : store.live.filter (· ≠ path) = store.live := by
      refine List.filter_eq_self.mpr fun other live => decide_eq_true fun same => ?_
      obtain ⟨node, found⟩ := inPlace.files other live
      rw [same, plain] at found
      cases found
    exact others.symm
  · rw [Disk.remove_plain plain] at answer_eq
    rw [answer_eq, liveAfter]

/-- A run that is disposed of is kept no longer. Any other file may be asked for as well. -/
theorem Keeps.dispose (keeps : store.Keeps format bufferSize kept littered host.disk) (handle : SpillHandle) :
    Ensures (store.dispose handle) host fun result later =>
      result.2.Keeps format bufferSize (kept.filter (·.1.path ≠ handle.path)) littered later.disk := by
  have names (path : SpillPath) (differ : path ≠ handle.path) :
      Disk.entry? (host.disk.remove handle.path).2 path = host.disk.entry? path :=
    (host.disk.entry?_remove handle.path path).resolve_right fun gone => differ gone.1
  apply (store.removeLive_spec handle.path host).mono
  rintro ⟨answer, store'⟩ later ⟨removed, answer_eq, store_eq⟩
  dsimp only at answer_eq store_eq ⊢
  rw [store_eq, removed, keeps.inPlace.liveAfter_eq answer_eq]
  refine ⟨keeps.sound.remove handle.path, keeps.inPlace.fewer ?_ ?_ ?_, keeps.bufferSize_eq, ?_, ?_, keeps.lacking, ?_⟩
  · intro path live
    obtain ⟨former, differ⟩ := List.mem_filter.mp live
    exact ⟨former, names path (of_decide_eq_true differ)⟩
  · intro directory there
    rw [Disk.hasDirectory_remove]
    exact there
  · intro path missing
    rcases host.disk.entry?_remove handle.path path with same | ⟨-, gone⟩
    · exact same.trans missing
    · exact gone
  · intro entry present
    obtain ⟨old, differ⟩ := List.mem_filter.mp present
    exact List.mem_filter.mpr ⟨keeps.listed entry old, differ⟩
  · intro tidy
    dsimp only
    rw [keeps.live_eq tidy, List.filter_map]
    rfl
  · intro entry present
    obtain ⟨old, differ⟩ := List.mem_filter.mp present
    exact keeps.holds_of_within old (.remove trivial : host.disk.Within (fun _ => True) _) fun _ =>
      names entry.1.path (of_decide_eq_true differ)

theorem Keeps.disposeAll (keeps : store.Keeps format bufferSize kept littered host.disk) :
    Ensures store.disposeAll host fun result later => result.2.Keeps format bufferSize [] false later.disk := by
  have files : ∀ path ∈ store.live, host.disk.entry? path ≠ some .directory := by
    intro path live
    obtain ⟨node, found⟩ := keeps.inPlace.files path live
    rw [found]
    rintro ⟨⟩
  simp only [SpillStore.disposeAll]
  rw [Ensures.bind_iff]
  apply ((removeAll_spec keeps.inPlace.housed files).and (removeAll_minds (fun _ => False) store.live keeps.sound)).mono
  rintro answer later ⟨⟨-, sheds⟩, minds⟩
  refine ⟨minds.sound, keeps.inPlace.fewer nofun (fun directory there => ?_) (fun path missing => ?_),
    keeps.bufferSize_eq, nofun, fun _ => rfl, nofun, nofun⟩
  · exact (sheds.hasDirectory_eq directory).trans there
  · rcases sheds.names path with same | gone
    · exact same.trans missing
    · exact gone

theorem Keeps.close (keeps : store.Keeps format bufferSize kept littered host.disk) :
    Ensures store.close host fun result later => result.2.Keeps format bufferSize [] false later.disk := by
  apply ((store.close_store host).and (store.close_minds keeps.sound)).mono
  rintro ⟨answer, store'⟩ later ⟨rfl, minds, -⟩
  exact ⟨minds.sound, ⟨⟨nofun, nofun⟩, nofun, nofun, nofun⟩, keeps.bufferSize_eq, nofun, fun _ => rfl, nofun, nofun⟩

/-! ## Any sequence of calls -/

theorem perform_keeps (keeps : store.Keeps format bufferSize kept littered host.disk) (call : StoreCall α) :
    Ensures (store.perform format call) host fun result later => host.disk.Within (fun _ => True) later.disk ∧
      result.2.Keeps format bufferSize (call.enter kept result.1) (call.litter littered result.1) later.disk := by
  simp only [perform]
  cases call with
  | write records =>
    rw [Ensures.bind_iff]
    apply ((write_spec keeps.inPlace.ready keeps.sound).and (keeps.write records)).mono
    rintro ⟨answer, store'⟩ later ⟨⟨within, -⟩, kept', -⟩
    exact ⟨within.mono fun _ _ => trivial, kept'⟩
  | openReader handle =>
    rw [Ensures.bind_iff]
    apply (Filling.openReader_disk format store handle host).mono
    rintro answer later rfl
    exact ⟨.refl _ _, keeps⟩
  | dispose handle =>
    rw [Ensures.bind_iff]
    apply ((store.removeLive_spec handle.path host).and (keeps.dispose handle)).mono
    rintro result later ⟨⟨removed, -⟩, kept'⟩
    exact ⟨removed ▸ .remove trivial, kept'⟩
  | disposeAll =>
    rw [Ensures.bind_iff]
    have within : Ensures store.disposeAll host fun _ later => host.disk.Within (fun _ => True) later.disk := by
      simp only [SpillStore.disposeAll]
      rw [Ensures.bind_iff]
      exact removeAll_within (fun _ _ => trivial) host
    exact (within.and keeps.disposeAll).mono fun _ _ outcome => outcome
  | close =>
    rw [Ensures.bind_iff]
    exact ((close_within (fun _ _ => trivial) (fun _ _ => trivial) host).and keeps.close).mono fun _ _ outcome => outcome

theorem play_keeps (keeps : store.Keeps format bufferSize kept littered host.disk) (calls : List (StoreCall α)) :
    Ensures (store.play format calls) host fun used later =>
      host.disk.Within (fun _ => True) later.disk ∧
        used.2.Keeps format bufferSize
          ((calls.zip used.1).foldl (fun kept asked => asked.1.enter kept asked.2) kept)
          ((calls.zip used.1).foldl (fun littered asked => asked.1.litter littered asked.2) littered) later.disk := by
  induction calls generalizing store kept littered host with
  | nil => exact ⟨.refl _ _, keeps⟩
  | cons call calls ih =>
    simp only [play]
    rw [Ensures.bind_iff]
    apply (perform_keeps keeps call).mono
    rintro ⟨answer, store'⟩ later ⟨within, kept'⟩
    rw [Ensures.bind_iff]
    apply (ih kept').mono
    rintro ⟨answers, store''⟩ last ⟨within', kept''⟩
    exact ⟨within.trans within' fun _ => .inl, kept''⟩

/-- What a run is to one who has its handle. -/
structure Serves (format : SpillFormat α) (store : SpillStore) (handle : SpillHandle) (records : List α) (host : Host) :
    Prop where
  records_eq : handle.records = records.length
  file : ∃ node, host.disk.entry? handle.path = some (.file node) ∧ (host.disk.content node).length = handle.size
  /-- Eight bytes of header, and for each record a length of four bytes and its payload. -/
  size_eq : ∃ payloads, List.Forall₂ (fun record payload => format.encode record = .ok payload) records payloads ∧
    handle.size = 8 + 4 * records.length + payloads.flatten.length
  /-- The records can be read in order, also when the store is used meanwhile. -/
  reading : Ensures (store.openReader format handle) host fun result later => ∃ reader, result = .ok reader ∧
    ∀ calls : List (StoreCall α), Ensures (store.play format calls) later fun _ last =>
      (reader.collect last).1.1 = .ok records

/-- A map from handles to runs. -/
structure Map (format : SpillFormat α) (store : SpillStore) (kept : List (SpillHandle × List α)) (littered : Bool)
    (host : Host) : Prop where
  serves : ∀ entry ∈ kept, store.Serves format entry.1 entry.2 host
  /-- There are no files but those of the runs, unless a write was given up. -/
  liveFiles_eq : littered = false → store.liveFiles = kept.length
  /-- A write fails for a reason, and leaves all names and contents as they were. -/
  fails : ∀ records, Ensures (store.write format records) host fun result later => ∀ error, result.1 = .error error →
    (∀ size, error ≠ .bufferTooLarge size) →
      ¬ store.Accepts format records host.disk ∧ result.2.liveFiles = store.liveFiles ∧
        (∀ path, later.disk.entry? path = host.disk.entry? path) ∧
          ∀ path node, host.disk.entry? path = some (.file node) → later.disk.content node = host.disk.content node
  /-- A write is given up only where there is no buffer, and leaves the names and contents that there were. -/
  givesUp : ∀ records, Ensures (store.write format records) host fun result later => ∀ size,
    result.1 = .error (.bufferTooLarge size) →
      BufferedFile.capacityLimit < bufferCapacity store.bufferSize ∧
        (∀ path, host.disk.entry? path ≠ none → later.disk.entry? path = host.disk.entry? path) ∧
          ∀ path node, host.disk.entry? path = some (.file node) → later.disk.content node = host.disk.content node

theorem Keeps.serves (keeps : store.Keeps format bufferSize kept littered host.disk) (roundTrips : format.RoundTrips)
    {entry : SpillHandle × List α} (present : entry ∈ kept) : store.Serves format entry.1 entry.2 host := by
  have holds := keeps.holds entry present
  obtain ⟨records_eq, node, frames, found, encoded, content_eq, size_eq⟩ := holds
  obtain ⟨payloads, stored, length_eq⟩ := Frame.length_encodeAll encoded
  refine ⟨records_eq, ⟨node, found, by rw [content_eq, size_eq]⟩, ⟨payloads, stored, ?_⟩, ?_⟩
  · rw [size_eq, List.length_append, length_eq, Nat.add_assoc]
    rfl
  · have opened : Ensures (store.openReader format entry.1) host fun result later =>
        later = host ∧ ∃ reader, result = .ok reader ∧ reader.Tracks False (fun _ => True) entry.2 host.disk :=
      openReader_spec False (keeps.holds entry present) keeps.sound roundTrips.restores trivial
    apply opened.mono
    rintro result later ⟨rfl, reader, rfl, tracks⟩
    refine ⟨reader, rfl, fun calls => ?_⟩
    apply (play_keeps keeps calls).mono
    rintro used last ⟨within, -⟩
    exact SpillReader.collect_eq (tracks.stable (within.shrinks False))

theorem Keeps.map (keeps : store.Keeps format bufferSize kept littered host.disk) (roundTrips : format.RoundTrips) :
    store.Map format kept littered host where
  serves _ present := keeps.serves roundTrips present
  liveFiles_eq tidy := by rw [liveFiles, keeps.live_eq tidy, List.length_map]
  fails records := by
    apply ((write_spec keeps.inPlace.ready keeps.sound).and (keeps.write records)).mono
    rintro ⟨answer, store'⟩ later ⟨⟨within, -, refused⟩, -, unfinished⟩ error rfl there
    obtain ⟨live_eq, names⟩ := (unfinished error rfl).2 there
    refine ⟨refused, congrArg List.length live_eq, names, fun path node found => ?_⟩
    exact within.content_eq node (keeps.sound.node_lt path node found)
  givesUp records := by
    apply ((write_spec keeps.inPlace.ready keeps.sound).and (keeps.write records)).mono
    rintro ⟨answer, store'⟩ later ⟨⟨within, -⟩, kept', unfinished⟩ size rfl
    refine ⟨keeps.bufferSize_eq ▸ kept'.lacking rfl, (unfinished _ rfl).1, fun path node found => ?_⟩
    exact within.content_eq node (keeps.sound.node_lt path node found)

/-- Whatever is asked of a new store, the runs written and not disposed of are in it as they were written, no name
is given twice, and a write that fails changes nothing else. Nor does one that is given up, but it leaves a file; it
is given up only where no write buffer of the size can be had. -/
theorem play_map {host : Host} (roundTrips : format.RoundTrips) (sound : host.disk.Sound) (place : Place)
    (bufferSize : Option Nat) (calls : List (StoreCall α)) :
    Ensures ((new place bufferSize).play format calls) host fun used later =>
      ((used.1.filterMap StoreAnswer.handle?).map SpillHandle.path).Nodup ∧
        used.2.Map format (ledger calls used.1) (litterAfter calls used.1) later ∧
          (litterAfter calls used.1 = true → BufferedFile.capacityLimit < bufferCapacity bufferSize) := by
  have names := (new place bufferSize).play_names format calls host
  apply (names.and (play_keeps (keeps_new place bufferSize sound) calls)).mono
  rintro used later ⟨⟨distinct, -⟩, -, keeps⟩
  exact ⟨distinct, keeps.map roundTrips, keeps.lacking⟩

/-- Two runs of numbers, of which the first is disposed of before the store is closed and used again. -/
theorem play_map_words :
    Ensures ((new .standard none).play .words [.write [3, 1], .write [2], .dispose ⟨⟨0, runName 0⟩, 2, 32⟩, .close,
      .write [5]]) (Host.fresh .empty) fun used later =>
        ((used.1.filterMap StoreAnswer.handle?).map SpillHandle.path).Nodup ∧
          used.2.Map .words (ledger [.write [3, 1], .write [2], .dispose ⟨⟨0, runName 0⟩, 2, 32⟩, .close, .write [5]]
            used.1) false later := by
  have played := @play_map _ _ (Host.fresh .empty) SpillFormat.words_roundTrips Disk.sound_empty .standard none
    [.write [3, 1], .write [2], .dispose ⟨⟨0, runName 0⟩, 2, 32⟩, .close, .write [5]]
  apply played.mono
  rintro used later ⟨distinct, map, lacking⟩
  have tidy := Bool.eq_false_iff.mpr fun littered => absurd (lacking littered) (by decide)
  exact ⟨distinct, tidy ▸ map⟩

end SpillStore

end SpillSort
