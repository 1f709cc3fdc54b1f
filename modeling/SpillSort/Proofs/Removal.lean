import SpillSort.Proofs.Filling

/-! # Removing the runs of a stream

The files of a store, and those that the runs of its stream are read from, are in the directory of the store. So
as long as that directory is there and no file has given way to a directory, everything can be removed, and what
is left then does not depend on how much had been removed before.
-/

namespace SpillSort

variable {σ α ε : Type}

/-! ## Names that go away -/

namespace Disk

/-- The temporary store without a directory, if there is one. -/
def without (disk : Disk) : Option Nat → Disk
  | none => disk
  | some directory => disk.forgetDirectory directory

/-- At most names in a directory have been removed. -/
structure Sheds (directory : Option Nat) (before after : Disk) : Prop where
  without_eq : after.without directory = before.without directory
  hasDirectory_eq : ∀ other, after.hasDirectory other = before.hasDirectory other
  names : ∀ path, after.entry? path = before.entry? path ∨ after.entry? path = none

namespace Sheds

variable {directory : Option Nat} {before middle after : Disk}

theorem refl (directory : Option Nat) (disk : Disk) : Sheds directory disk disk := ⟨rfl, fun _ => rfl, fun _ => .inl rfl⟩

theorem trans (first : Sheds directory before middle) (second : Sheds directory middle after) :
    Sheds directory before after where
  without_eq := second.without_eq.trans first.without_eq
  hasDirectory_eq other := (second.hasDirectory_eq other).trans (first.hasDirectory_eq other)
  names path := by
    rcases second.names path with same | gone
    · exact (first.names path).imp same.trans same.trans
    · exact .inr gone

theorem remove {path : SpillPath} (inside : directory = some path.directory) :
    Sheds directory before (before.remove path).2 := by
  refine ⟨?_, before.hasDirectory_remove path, fun other => (before.entry?_remove path other).imp_right And.right⟩
  simp only [Disk.remove]
  split
  · rfl
  · rfl
  · rw [inside]
    simp only [without, forgetDirectory, forget, List.filter_filter]
    congr 1
    refine List.filter_congr fun entry _ => ?_
    by_cases same : entry.1 = path <;> simp [same]

/-- No name comes to stand for a directory. -/
theorem plain (sheds : Sheds directory before after) {path : SpillPath} (plain : before.entry? path ≠ some .directory) :
    after.entry? path ≠ some .directory := by
  rcases sheds.names path with same | gone
  · rwa [same]
  · rw [gone]
    exact nofun

end Sheds

/-- A name that stands for no directory can be removed, if only because it is not there. -/
theorem remove_plain {disk : Disk} {path : SpillPath} (plain : disk.entry? path ≠ some .directory) :
    (if (disk.remove path).1 = .error .notFound then .ok () else (disk.remove path).1) = .ok () := by
  have outcome : (disk.remove path).1 = .error .notFound ∨ (disk.remove path).1 = .ok () := by
    simp only [remove]
    split
    · exact .inl rfl
    · next found => exact absurd found plain
    · exact .inr rfl
  rcases outcome with missing | removed
  · rw [if_pos missing]
  · rw [removed]
    rfl

end Disk

/-! ## Stores -/

namespace SpillStore

variable {store : SpillStore} {host : Host}

/-- Every live file is in the directory of the store. -/
def Housed (store : SpillStore) : Prop := ∀ path ∈ store.live, store.directory = some path.directory

/-- Nothing keeps the store from removing its files and its directory. -/
structure Removable (store : SpillStore) (disk : Disk) : Prop where
  present : ∀ directory, store.directory = some directory → disk.hasDirectory directory
  files : ∀ path ∈ store.live, disk.entry? path ≠ some .directory

theorem Removable.sheds {before after : Disk} (removable : store.Removable before)
    (sheds : before.Sheds store.directory after) : store.Removable after :=
  ⟨fun directory mine => sheds.hasDirectory_eq directory ▸ removable.present directory mine,
    fun path live => sheds.plain (removable.files path live)⟩

/-- What closing leaves of a store. -/
def emptied (store : SpillStore) : SpillStore := { store with directory := none, live := [] }

theorem removable_emptied (store : SpillStore) (disk : Disk) : store.emptied.Removable disk := ⟨nofun, nofun⟩

theorem housed_emptied (store : SpillStore) : store.emptied.Housed := nofun

/-- A store that was closed has nothing any more, also if something could not be removed. -/
theorem close_store (store : SpillStore) (host : Host) :
    Ensures store.close host fun result _ => result.2 = store.emptied := by
  unfold close disposeAll
  rw [Ensures.bind_iff, Ensures.bind_iff]
  apply Ensures.intro
  intro disposed later _
  rw [Ensures.pure_iff]
  dsimp only
  split
  · next missing =>
    simp only [Ensures.pure_iff, emptied]
    rw [← missing]
  · rw [Ensures.bind_iff]
    refine Ensures.report fun start _ => ?_
    rw [Ensures.bind_iff]
    apply Ensures.intro
    intro removed last _
    cases removed with
    | error error => rfl
    | ok => rfl

theorem discard_store (store : SpillStore) (host : Host) :
    Ensures store.discard host fun store' _ => store' = store.emptied := by
  simp only [discard]
  rw [Ensures.bind_iff]
  apply (store.close_store host).mono
  rintro ⟨closed, store'⟩ later rfl
  cases closed with
  | error error => rfl
  | ok => rfl

/-- Removing files happens within the directories they are in. -/
theorem removeAll_within {own : Nat → Prop} {paths : List SpillPath} (inside : ∀ path ∈ paths, own path.directory)
    (host : Host) : Ensures (removeAll paths) host fun _ later => host.disk.Within own later.disk := by
  induction paths generalizing host with
  | nil => exact .refl _ _
  | cons path paths ih =>
    obtain ⟨first, rest⟩ := List.forall_mem_cons.mp inside
    simp only [removeAll]
    rw [Ensures.bind_iff]
    apply (removeSpillFile_spec path host).mono
    rintro answer later ⟨removed, -⟩
    have within : host.disk.Within own later.disk := removed ▸ .remove first
    rw [Ensures.bind_iff]
    apply (ih rest later).mono
    intro others last within'
    cases answer with
    | error error => exact within.trans within' fun _ => .inl
    | ok => exact within.trans within' fun _ => .inl

/-- Closing happens within the directory of the store and those of its files. -/
theorem close_within {own : Nat → Prop} (inside : ∀ path ∈ store.live, own path.directory)
    (mine : ∀ directory, store.directory = some directory → own directory) (host : Host) :
    Ensures store.close host fun _ later => host.disk.Within own later.disk := by
  unfold close disposeAll
  rw [Ensures.bind_iff, Ensures.bind_iff]
  apply (removeAll_within inside host).mono
  intro disposed later within
  rw [Ensures.pure_iff]
  dsimp only
  split
  · exact within
  · next directory found =>
    rw [Ensures.bind_iff]
    refine Ensures.report fun start same => ?_
    rw [Ensures.bind_iff, Ensures.onDisk_iff, same]
    have removed : later.disk.Within own (later.disk.removeDirectory directory).2 :=
      .removeDirectory (mine directory found)
    generalize later.disk.removeDirectory directory = result at removed
    obtain ⟨answer, disk⟩ := result
    cases answer with
    | error error => exact within.trans removed fun _ => .inl
    | ok => exact within.trans removed fun _ => .inl

theorem discard_within {own : Nat → Prop} (inside : ∀ path ∈ store.live, own path.directory)
    (mine : ∀ directory, store.directory = some directory → own directory) (host : Host) :
    Ensures store.discard host fun _ later => host.disk.Within own later.disk := by
  simp only [discard]
  rw [Ensures.bind_iff]
  apply (close_within inside mine host).mono
  rintro ⟨closed, store'⟩ later within
  cases closed with
  | error error => exact within
  | ok => exact within

theorem removeAll_spec {directory : Option Nat} {paths : List SpillPath}
    (inside : ∀ path ∈ paths, directory = some path.directory)
    (files : ∀ path ∈ paths, host.disk.entry? path ≠ some .directory) :
    Ensures (removeAll paths) host fun answer later => answer = .ok () ∧ host.disk.Sheds directory later.disk := by
  induction paths generalizing host with
  | nil => exact ⟨rfl, .refl _ _⟩
  | cons path paths ih =>
    obtain ⟨first, rest⟩ := List.forall_mem_cons.mp inside
    obtain ⟨plain, others⟩ := List.forall_mem_cons.mp files
    simp only [removeAll]
    rw [Ensures.bind_iff]
    apply (removeSpillFile_spec path host).mono
    rintro answer later ⟨removed, answer_eq⟩
    rw [Disk.remove_plain plain] at answer_eq
    have sheds : host.disk.Sheds directory later.disk := removed ▸ .remove first
    rw [Ensures.bind_iff]
    apply (ih rest fun other live => sheds.plain (others other live)).mono
    rintro answers last ⟨rfl, sheds'⟩
    rw [answer_eq]
    exact ⟨rfl, sheds.trans sheds'⟩

/-- Closing removes the directory with everything in it. -/
theorem close_spec (housed : store.Housed) (removable : store.Removable host.disk) :
    Ensures store.close host fun result later =>
      result = (.ok (), store.emptied) ∧ later.disk = host.disk.without store.directory := by
  unfold close disposeAll
  rw [Ensures.bind_iff, Ensures.bind_iff]
  apply (removeAll_spec housed removable.files).mono
  rintro disposed later ⟨rfl, sheds⟩
  rw [Ensures.pure_iff]
  dsimp only
  split
  · next missing =>
    have without_eq := sheds.without_eq
    rw [missing] at without_eq
    simp only [Ensures.pure_iff, emptied]
    rw [missing]
    exact ⟨rfl, without_eq⟩
  · next directory mine =>
    rw [Ensures.bind_iff]
    refine Ensures.report fun start same => ?_
    rw [Ensures.bind_iff, Ensures.onDisk_iff, same]
    have there : later.disk.hasDirectory directory := (removable.sheds sheds).present directory mine
    have without_eq := sheds.without_eq
    rw [mine] at without_eq
    simp only [Disk.removeDirectory, there, if_true]
    rw [mine]
    exact ⟨rfl, without_eq⟩

theorem discard_spec (housed : store.Housed) (removable : store.Removable host.disk) :
    Ensures store.discard host fun store' later =>
      store' = store.emptied ∧ later.disk = host.disk.without store.directory := by
  simp only [discard]
  rw [Ensures.bind_iff]
  apply (close_spec housed removable).mono
  rintro result later ⟨rfl, disk_eq⟩
  exact ⟨rfl, disk_eq⟩

end SpillStore

/-! ## Runs -/

namespace RunReader

/-- A run in memory, or one in the directory. -/
def Lodged (directory : Option Nat) : RunReader α → Prop
  | .memory _ => True
  | .spilled reader => directory = some reader.path.directory

theorem pull_lodged {directory : Option Nat} {run : RunReader α} (lodged : run.Lodged directory) (host : Host) :
    Ensures run.pull host fun result later => result.2.Lodged directory ∧ host.disk.Sheds directory later.disk := by
  match run with
  | .memory [] => exact ⟨trivial, .refl _ _⟩
  | .memory (_ :: _) => exact ⟨trivial, .refl _ _⟩
  | .spilled reader =>
    simp only [pull]
    rw [Ensures.bind_iff]
    simp only [SpillReader.next]
    split
    · rw [Ensures.bind_iff]
      apply (reader.finish_spec host).mono
      rintro ended later ⟨rfl, effect⟩
      refine ⟨lodged, ?_⟩
      rcases effect with same | removed
      · exact same ▸ .refl _ _
      · exact removed ▸ .remove lodged
    · split
      · exact ⟨lodged, .refl _ _⟩
      · next file _ =>
        have path_eq : (reader.readRecord file host.disk).2.path = reader.path := by
          unfold SpillReader.readRecord
          split
          · rfl
          · split <;> rfl
        have lodged' : directory = some (reader.readRecord file host.disk).2.path.directory := path_eq ▸ lodged
        exact ⟨lodged', .refl _ _⟩

end RunReader

/-- All runs of the phase are in memory or in the directory. -/
def Phase.Lodged (directory : Option Nat) : Phase α → Prop
  | .merging merger => ∀ run ∈ merger.inputs, run.Lodged directory
  | .memory _ | .exhausted | .closed => True

theorem Phase.pull_lodged {directory : Option Nat} {phase : Phase α} (lodged : phase.Lodged directory)
    (compare : Comparison α) (host : Host) :
    Ensures (phase.pull compare) host fun result later =>
      result.2.Lodged directory ∧ host.disk.Sheds directory later.disk := by
  match phase with
  | .memory [] => exact ⟨trivial, .refl _ _⟩
  | .memory (_ :: _) => exact ⟨trivial, .refl _ _⟩
  | .merging merger =>
    simp only [pull]
    rw [Ensures.bind_iff]
    have merged := Merger.next_rule compare (Disk.Sheds directory) (.refl _) .trans
      (fun _ host lodged => RunReader.pull_lodged lodged host) lodged host
    exact merged.mono fun _ _ kept => kept
  | .exhausted => exact ⟨trivial, .refl _ _⟩
  | .closed => exact ⟨trivial, .refl _ _⟩

/-! ## Streams -/

namespace SortedStream

variable {stream : SortedStream σ α} {host : Host}

/-- All that a stream has on the temporary store is in the directory of its store. -/
structure Housed (stream : SortedStream σ α) : Prop where
  runs : stream.phase.Lodged stream.store.directory
  files : stream.store.Housed

/-- What a step does to what a stream has on the temporary store: what can be removed afterwards is the same. -/
structure Houses (before after : SortedStream σ α) (disk disk' : Disk) : Prop where
  housed : after.Housed
  removable : before.store.Removable disk → after.store.Removable disk'
  without_eq : before.store.Removable disk → disk'.without after.store.directory = disk.without before.store.directory

theorem Houses.refl (housed : stream.Housed) (disk : Disk) : Houses stream stream disk disk :=
  ⟨housed, id, fun _ => rfl⟩

theorem Houses.trans {before middle after : SortedStream σ α} {disk disk' disk'' : Disk}
    (first : Houses before middle disk disk') (second : Houses middle after disk' disk'') :
    Houses before after disk disk'' :=
  ⟨second.housed, second.removable ∘ first.removable,
    fun removable => (second.without_eq (first.removable removable)).trans (first.without_eq removable)⟩

theorem finish_houses (housed : stream.Housed) (host : Host) :
    Ensures stream.finish host fun ended later => Houses stream ended host.disk later.disk := by
  simp only [finish]
  split
  · exact .refl housed _
  · rw [Ensures.bind_iff]
    apply Ensures.intro
    intro store later ran
    obtain rfl : store = stream.store.emptied := (stream.store.discard_store host).of_run ran
    refine ⟨⟨trivial, stream.store.housed_emptied⟩, fun _ => stream.store.removable_emptied _, fun removable => ?_⟩
    exact ((SpillStore.discard_spec housed.files removable).of_run ran).2

theorem settle_houses (housed : stream.Housed) (answer : Option (Except SpillError α)) (host : Host) :
    Ensures (stream.settle (ε := ε) answer) host fun result later => Houses stream result.2 host.disk later.disk := by
  match answer with
  | none =>
    simp only [settle]
    rw [Ensures.bind_iff]
    exact finish_houses housed host
  | some (.error error) =>
    simp only [settle]
    rw [Ensures.bind_iff]
    refine Ensures.report fun start same => ?_
    rw [Ensures.bind_iff, ← same]
    exact finish_houses housed start
  | some (.ok record) =>
    have counted : { stream with remaining := stream.remaining.map (· - 1) }.Housed := ⟨housed.runs, housed.files⟩
    have untouched (disk : Disk) :
        Houses stream { stream with remaining := stream.remaining.map (· - 1) } disk disk := ⟨counted, id, fun _ => rfl⟩
    simp only [settle]
    split
    · rw [Ensures.bind_iff]
      exact (finish_houses counted host).mono fun _ _ houses => (untouched _).trans houses
    · exact untouched _

theorem advance_houses (housed : stream.Housed) (host : Host) :
    Ensures (stream.advance (ε := ε)) host fun result later => Houses stream result.2 host.disk later.disk := by
  simp only [advance]
  split
  · exact .refl housed _
  · split
    · exact .refl housed _
    · rw [Ensures.bind_iff]
      apply (Phase.pull_lodged housed.runs stream.compare host).mono
      rintro ⟨answer, phase⟩ later ⟨lodged, sheds⟩
      have housed' : { stream with phase }.Housed := ⟨lodged, housed.files⟩
      have pulled : Houses stream { stream with phase } host.disk later.disk :=
        ⟨housed', fun removable => removable.sheds sheds, fun _ => sheds.without_eq⟩
      exact (settle_houses housed' answer later).mono fun _ _ houses => pulled.trans houses

theorem next_houses (housed : stream.Housed) (host : Host) :
    Ensures (stream.next (ε := ε)) host fun result later => Houses stream result.2 host.disk later.disk := by
  simp only [next]
  split
  · exact ⟨⟨housed.runs, housed.files⟩, id, fun _ => rfl⟩
  · exact advance_houses housed host

theorem hasNext_houses (housed : stream.Housed) (host : Host) :
    Ensures (stream.hasNext (ε := ε)) host fun result later => Houses stream result.2 host.disk later.disk := by
  simp only [hasNext]
  split
  · exact .refl housed _
  · rw [Ensures.bind_iff]
    apply (advance_houses housed host).mono
    rintro ⟨answer, stream'⟩ later houses
    cases answer with
    | error error => exact houses
    | ok peeked =>
      have looked : { stream' with peeked }.Housed := ⟨houses.housed.runs, houses.housed.files⟩
      exact ⟨looked, houses.removable, houses.without_eq⟩

theorem skip_houses (housed : stream.Housed) (count : Nat) (host : Host) :
    Ensures (stream.skip (ε := ε) count) host fun result later => Houses stream result.2 host.disk later.disk := by
  refine skip_rule (fun stream' later => Houses stream stream' host.disk later.disk) ?_ (fun _ _ houses => houses)
    (.refl housed _)
  intro stream' start houses
  apply (advance_houses houses.housed start).mono
  rintro ⟨answer, stream''⟩ later houses'
  match answer with
  | .error error => exact houses.trans houses'
  | .ok none => exact houses.trans houses'
  | .ok (some record) => exact houses.trans houses'

variable [RecordSource σ α ε]

/-- A closed stream has nothing on the temporary store. -/
theorem close_housed (housed : stream.Housed) (host : Host) :
    Ensures (stream.close (ε := ε)) host fun result _ => result.2.Housed := by
  simp only [close]
  split
  · exact housed
  · rw [Ensures.bind_iff]
    apply (stream.store.close_store host).mono
    rintro ⟨disposed, store⟩ middle rfl
    rw [Ensures.bind_iff]
    apply Ensures.intro
    rintro ⟨closed, source⟩ later -
    have emptied : Housed (α := α)
        { stream with phase := .closed, peeked := none, store := stream.store.emptied, source } :=
      ⟨trivial, stream.store.housed_emptied⟩
    cases closed with
    | error error => exact emptied
    | ok =>
      cases disposed with
      | error error => exact emptied
      | ok => exact emptied

theorem perform_housed (housed : stream.Housed) (call : StreamCall) (host : Host) :
    Ensures (stream.perform (ε := ε) call) host fun result _ => result.2.Housed := by
  simp only [perform]
  cases call with
  | hasNext =>
    rw [Ensures.bind_iff]
    exact (hasNext_houses housed host).mono fun _ _ houses => houses.housed
  | next =>
    rw [Ensures.bind_iff]
    exact (next_houses housed host).mono fun _ _ houses => houses.housed
  | iterate =>
    rw [Ensures.bind_iff]
    exact (next_houses housed host).mono fun _ _ houses => houses.housed
  | close =>
    rw [Ensures.bind_iff]
    exact close_housed housed host

/-- Whatever was done with a stream, and to the temporary store, what the stream has there is in its directory. -/
theorem play_housed (housed : stream.Housed) (events : List StreamEvent) (host : Host) :
    Ensures (stream.play (ε := ε) events) host fun result _ => result.2.Housed :=
  play_rule (fun stream _ => stream.Housed) (fun call _ start _ housed => perform_housed housed call start)
    (fun _ _ _ _ housed => housed) housed

end SortedStream

/-! ## Sorting -/

namespace SpillStore

theorem ensureDirectory_housed (store : SpillStore) (host : Host) :
    Ensures store.ensureDirectory host fun result _ => ∀ directory, result.1 = .ok directory →
      result.2 = { store with directory := some directory } ∧
        ∀ former, store.directory = some former → former = directory := by
  simp only [ensureDirectory]
  split
  · next directory mine =>
    rintro other ⟨⟩
    refine ⟨?_, fun former same => Option.some.inj (same.symm.trans mine)⟩
    change store = { store with directory := some directory }
    rw [← mine]
  · next missing =>
    rw [Ensures.bind_iff, Ensures.onDisk_iff]
    generalize host.disk.makeDirectory store.place = made
    obtain ⟨answer, disk⟩ := made
    cases answer with
    | error error => rintro other ⟨⟩
    | ok directory =>
      rintro other ⟨⟩
      refine ⟨rfl, fun former same => ?_⟩
      rw [missing] at same
      cases same

/-- A run that was written is the last of the live ones, and in the directory. -/
theorem write_housed (store : SpillStore) (format : SpillFormat α) (records : List α) (host : Host) :
    Ensures (store.write format records) host fun result _ => ∀ handle, result.1 = .ok handle →
      result.2.live = store.live ++ [handle.path] ∧ result.2.directory = some handle.path.directory ∧
        ∀ former, store.directory = some former → former = handle.path.directory := by
  refine write_rule (fun path store' _ => store'.live = store.live ∧ store'.directory = some path.directory ∧
    ∀ former, store.directory = some former → former = path.directory) ?_ ?_ ?_ ?_ ?_
  · apply (store.ensureDirectory_housed host).mono
    rintro ⟨answer, store'⟩ middle ensured
    cases answer with
    | error error => exact nofun
    | ok directory =>
      obtain ⟨rfl, same⟩ := ensured directory rfl
      exact ⟨rfl, rfl, same⟩
  · exact fun _ _ _ _ _ _ _ => nofun
  · rintro path store' disk node made frames later ⟨live_eq, mine, same⟩ - - - handle ⟨⟩
    refine ⟨?_, mine, same⟩
    rw [← live_eq]
  · exact fun _ _ _ _ _ _ _ _ _ _ _ _ => nofun
  · exact fun _ _ _ _ _ _ _ _ _ _ _ => nofun

/-- Also where a run cannot be written, the live files are in the directory of the store. -/
theorem write_files {store : SpillStore} (housed : store.Housed) (format : SpillFormat α) (records : List α)
    (host : Host) : Ensures (store.write format records) host fun result _ => result.2.Housed := by
  have added {path : SpillPath} {store' : SpillStore} (housed' : store'.Housed)
      (mine : store'.directory = some path.directory) :
      ∀ other ∈ store'.live ++ [path], store'.directory = some other.directory := by
    intro other live
    rcases List.mem_append.mp live with old | new
    · exact housed' other old
    · exact List.mem_singleton.mp new ▸ mine
  refine write_rule (fun path store' _ => store'.Housed ∧ store'.directory = some path.directory) ?_ ?_ ?_ ?_ ?_
  · simp only [ensureDirectory]
    split
    · next directory mine => exact ⟨housed, mine⟩
    · next missing =>
      have empty : ∀ path ∈ store.live, False := by
        intro path live
        cases missing.symm.trans (housed path live)
      rw [Ensures.bind_iff, Ensures.onDisk_iff]
      generalize host.disk.makeDirectory store.place = made
      obtain ⟨answer, disk⟩ := made
      cases answer with
      | error error => exact housed
      | ok directory => exact ⟨fun path live => (empty path live).elim, rfl⟩
  · exact fun _ _ _ _ _ ready _ => ready.1
  · rintro path store' disk node made frames later ⟨housed', mine⟩ - - -
    exact added housed' mine
  · rintro path store' disk node made error later ⟨housed', mine⟩ - - - - other live
    exact added housed' mine other (List.mem_of_mem_filter live)
  · rintro path store' disk node made size later ⟨housed', mine⟩ - - -
    exact added housed' mine

end SpillStore

namespace Filling

/-- The live files are those of the runs, all in the directory of the store. -/
structure Housed (filling : Filling σ α) : Prop where
  live_eq : filling.store.live = filling.runs.map SpillHandle.path
  inside : ∀ handle ∈ filling.runs, filling.store.directory = some handle.path.directory

theorem Housed.files {filling : Filling σ α} (housed : filling.Housed) : filling.store.Housed := by
  intro path live
  rw [housed.live_eq] at live
  obtain ⟨handle, present, rfl⟩ := List.mem_map.mp live
  exact housed.inside handle present

theorem accept_housed {plan : RunPlan α} {filling : Filling σ α} (housed : filling.Housed) (record : α) (host : Host) :
    Ensures (accept (ε := ε) plan filling record) host fun result _ => result.1 = .ok () → result.2.Housed := by
  refine accept_rule (fun _ _ => ⟨housed.live_eq, housed.inside⟩) fun _ start _ => ?_
  apply (filling.store.write_housed plan.format _ start).mono
  rintro ⟨written, store⟩ later outcome
  cases written with
  | error error => exact nofun
  | ok handle =>
    obtain ⟨live_eq, mine, same⟩ := outcome handle rfl
    rintro -
    constructor
    · dsimp only at live_eq ⊢
      rw [live_eq, housed.live_eq, List.map_append, List.map_singleton]
    · intro other present
      rcases List.mem_append.mp present with old | new
      · exact mine.trans (congrArg some (same _ (housed.inside other old))).symm
      · exact List.mem_singleton.mp new ▸ mine

theorem readAll_housed [RecordSource σ α ε] {plan : RunPlan α} {filling : Filling σ α} (housed : filling.Housed)
    (host : Host) :
    Ensures (modifyGet (readAll (ε := ε) plan filling)) host fun result _ => result.1 = .ok () → result.2.Housed := by
  refine readAll_rule (fun filling _ => filling.Housed) ?_ housed
  intro filling start housed'
  apply Ensures.intro
  rintro ⟨answer, source⟩ later -
  match answer with
  | .error error => exact nofun
  | .ok none => exact fun _ => ⟨housed'.live_eq, housed'.inside⟩
  | .ok (some record) =>
    have asked : { filling with source }.Housed := ⟨housed'.live_eq, housed'.inside⟩
    apply (accept_housed asked record later).mono
    rintro ⟨accepted, fuller⟩ last kept
    cases accepted with
    | error error => exact nofun
    | ok => exact kept rfl

theorem openReader_path (store : SpillStore) (format : SpillFormat α) (handle : SpillHandle) (host : Host) :
    Ensures (store.openReader format handle) host fun result _ => ∀ reader, result = .ok reader →
      reader.path = handle.path := by
  unfold SpillStore.openReader
  rw [Ensures.bind_iff, Ensures.get_iff]
  dsimp only
  split
  · exact nofun
  · split <;> exact nofun
  · split
    · exact nofun
    · split
      · exact nofun
      · split
        · exact nofun
        · rintro reader ⟨⟩
          rfl

theorem openRuns_lodged {directory : Option Nat} {handles : List SpillHandle}
    (inside : ∀ handle ∈ handles, directory = some handle.path.directory) (format : SpillFormat α) (store : SpillStore)
    (host : Host) :
    Ensures (openRuns format store handles) host fun result _ => ∀ runs, result = .ok runs →
      ∀ run ∈ runs, run.Lodged directory := by
  induction handles generalizing host with
  | nil =>
    rintro runs ⟨⟩
    exact List.forall_mem_nil _
  | cons handle handles ih =>
    obtain ⟨first, rest⟩ := List.forall_mem_cons.mp inside
    simp only [openRuns]
    rw [Ensures.bind_iff]
    apply (openReader_path store format handle host).mono
    intro answer later same
    cases answer with
    | error error => rintro other ⟨⟩
    | ok reader =>
      have lodged : RunReader.Lodged directory (.spilled reader.disposeOnExhaust) := by
        change directory = some reader.path.directory
        rw [same reader rfl]
        exact first
      dsimp only
      rw [Ensures.bind_iff]
      apply (ih rest later).mono
      intro others last lodged'
      cases others with
      | error error => rintro other ⟨⟩
      | ok runs =>
        rintro runs' ⟨⟩
        exact List.forall_mem_cons.mpr ⟨lodged, lodged' runs rfl⟩

/-- All runs of the outcome are in memory or in the directory. -/
def Outcome.Lodged (directory : Option Nat) : Outcome α → Prop
  | .memory _ => True
  | .runs readers => ∀ run ∈ readers, run.Lodged directory

theorem conclude_lodged {filling : Filling σ α} (housed : filling.Housed) (plan : RunPlan α) (host : Host) :
    Ensures (filling.conclude (ε := ε) plan) host fun result _ => ∀ outcome, result = .ok outcome →
      outcome.Lodged filling.store.directory := by
  simp only [conclude]
  split
  · rw [Ensures.bind_iff]
    refine Ensures.report fun start _ => ?_
    rintro outcome ⟨⟩
    trivial
  · rw [Ensures.bind_iff]
    refine Ensures.report fun start _ => ?_
    rw [Ensures.bind_iff]
    apply (openRuns_lodged housed.inside plan.format filling.store start).mono
    intro answer later lodged
    cases answer with
    | error error => rintro other ⟨⟩
    | ok runs =>
      rintro outcome ⟨⟩ run present
      rcases List.mem_append.mp present with spilled | last
      · exact lodged runs rfl run spilled
      · rw [List.mem_singleton.mp last]
        trivial

theorem run_housed [RecordSource σ α ε] (plan : RunPlan α) (source : σ) (place : Place) (bufferSize : Option Nat)
    (host : Host) :
    Ensures (run (ε := ε) plan source (.new place bufferSize)) host fun result _ => ∀ outcome,
      result.1 = .ok outcome → result.2.Housed ∧ outcome.Lodged result.2.store.directory := by
  have housed : (start plan source (.new place bufferSize)).Housed := ⟨rfl, List.forall_mem_nil _⟩
  simp only [run]
  rw [Ensures.bind_iff]
  apply (readAll_housed (ε := ε) housed host).mono
  rintro ⟨answer, filling⟩ later kept
  cases answer with
  | error error => rintro other ⟨⟩
  | ok =>
    dsimp only
    rw [Ensures.bind_iff]
    apply (conclude_lodged (kept rfl) plan later).mono
    intro answer last lodged outcome same
    exact ⟨kept rfl, lodged outcome same⟩

/-- The runs that were written are files. -/
theorem Housed.removable {plan : RunPlan α} {own : Nat → Prop} {filling : Filling σ α} {read : List α} {disk : Disk}
    (housed : filling.Housed) (cuts : filling.Cuts plan own read disk) : filling.store.Removable disk := by
  obtain ⟨pages, -, runs⟩ := cuts.pages
  refine ⟨cuts.ready.present, ?_⟩
  intro path live
  rw [housed.live_eq] at live
  obtain ⟨handle, present, rfl⟩ := List.mem_map.mp live
  obtain ⟨index, bound, rfl⟩ := List.mem_iff_getElem.mp present
  obtain ⟨-, node, frames, found, -⟩ := runs.get bound (runs.length_eq ▸ bound)
  change disk.entry? filling.runs[index].path = _ at found
  rw [found]
  exact nofun

theorem run_removable [RecordSource σ α ε] {plan : RunPlan α} {own : Nat → Prop} {records : List α} {source : σ}
    {place : Place} {bufferSize : Option Nat} {host : Host} (yields : Yields records source own host.disk)
    (sound : host.disk.Sound) (positive : 0 < plan.pageSize) :
    Ensures (run (ε := ε) plan source (.new place bufferSize)) host fun result later => ∀ outcome,
      result.1 = .ok outcome → (result.2.Housed ∧ outcome.Lodged result.2.store.directory) ∧
        result.2.store.Removable later.disk := by
  apply ((run_housed plan source place bufferSize host).and (run_cuts yields sound positive)).mono
  rintro ⟨answer, filling⟩ later ⟨kept, cuts⟩ outcome ran
  obtain ⟨own', cuts'⟩ := cuts outcome ran
  exact ⟨kept outcome ran, (kept outcome ran).1.removable cuts'⟩

end Filling

namespace Sorter

theorem openStream_housed (compare : Comparison α) {filling : Filling σ α} {outcome : Filling.Outcome α}
    (housed : filling.Housed) (lodged : outcome.Lodged filling.store.directory) :
    (openStream compare filling outcome).Housed := by
  cases outcome with
  | memory page => exact ⟨trivial, housed.files⟩
  | runs readers => exact ⟨lodged, housed.files⟩

variable [RecordSource σ α ε] [ErrorText ε]

/-- Right after sorting, what a stream has on the temporary store is in its directory. -/
theorem sortBy_housed (sorter : Sorter) (format : SpillFormat α) (compare : Comparison α) (source : σ) (host : Host) :
    Ensures (sorter.sortBy (ε := ε) format compare source) host fun result _ => ∀ stream, result = .ok stream →
      stream.Housed := by
  refine sortBy_rule (fun outcome filling _ => filling.Housed ∧ outcome.Lodged filling.store.directory)
    (Filling.run_housed _ source _ _ host) ?_
  rintro outcome filling start start' ⟨housed, lodged⟩ -
  have skipped := SortedStream.skip_houses (ε := ε) (openStream_housed compare housed lodged) sorter.options.offset start'
  exact skipped.mono fun _ _ houses _ => ⟨houses.housed.runs, houses.housed.files⟩

/-- Where no other files are touched, everything a stream has can be removed right after sorting. -/
theorem sortBy_removable {sorter : Sorter} {format : SpillFormat α} {compare : Comparison α} {source : σ}
    {records : List α} {own : Nat → Prop} {host : Host} (sound : host.disk.Sound)
    (yields : Yields records source own host.disk) :
    Ensures (sorter.sortBy (ε := ε) format compare source) host fun result later => ∀ stream, result = .ok stream →
      stream.store.Removable later.disk := by
  refine sortBy_rule (fun outcome filling later => (filling.Housed ∧ outcome.Lodged filling.store.directory) ∧
    filling.store.Removable later.disk) (Filling.run_removable yields sound sorter.pageSize_pos) ?_
  rintro outcome filling start start' ⟨⟨housed, lodged⟩, removable⟩ same
  have skipped := SortedStream.skip_houses (ε := ε) (openStream_housed compare housed lodged) sorter.options.offset start'
  apply skipped.mono
  rintro result later houses -
  refine houses.removable ?_
  rw [same]
  cases outcome <;> exact removable

end Sorter

end SpillSort
