import SpillSort.Proofs.Peeking

/-! # What a stream touches

A sort and its stream leave everything alone that is not in the directory of their runs, and that directory is a
new one. So nothing that others have is created, changed or removed, and what a stream has is still there, and can
still be removed, after others have done the same in directories of their own.
-/

namespace SpillSort

variable {σ α ε : Type}

/-! ## Without a directory -/

namespace Disk

section

variable (disk : Disk) (directory : Option Nat)

@[simp] theorem contents_without : (disk.without directory).contents = disk.contents := by cases directory <;> rfl

@[simp] theorem content_without (node : Nat) : (disk.without directory).content node = disk.content node := by
  cases directory <;> rfl

@[simp] theorem nextDirectory_without : (disk.without directory).nextDirectory = disk.nextDirectory := by
  cases directory <;> rfl

@[simp] theorem refused_without : (disk.without directory).refused = disk.refused := by cases directory <;> rfl

theorem hasDirectory_without {other : Nat} (differ : directory ≠ some other) :
    (disk.without directory).hasDirectory other = disk.hasDirectory other := by
  cases directory with
  | none => rfl
  | some directory =>
    have differ' : other ≠ directory := fun same => differ (congrArg some same.symm)
    simp [without, hasDirectory_forgetDirectory, differ']

theorem entry?_without {path : SpillPath} (differ : directory ≠ some path.directory) :
    entry? (disk.without directory) path = disk.entry? path := by
  cases directory with
  | none => rfl
  | some directory =>
    have differ' : path.directory ≠ directory := fun same => differ (congrArg some same.symm)
    rw [without, entry?_forgetDirectory, if_neg differ']

end

/-- Two stores that are the same without a directory differ in it only. -/
theorem Within.of_without_eq {before after : Disk} {directory directory' : Option Nat}
    (same : after.without directory' = before.without directory)
    (former : ∀ other, directory' = some other → directory = some other) :
    Within (directory = some ·) before after where
  nextDirectory_le := by
    have next_eq := congrArg Disk.nextDirectory same
    rw [nextDirectory_without, nextDirectory_without] at next_eq
    exact Nat.le_of_eq next_eq.symm
  size_le := by
    have contents_eq := congrArg Disk.contents same
    rw [contents_without, contents_without] at contents_eq
    rw [contents_eq]
  content_eq node _ := by
    have content_eq := congrArg (Disk.content · node) same
    simpa only [content_without] using content_eq
  refused_eq := by
    have refused_eq := congrArg Disk.refused same
    rwa [refused_without, refused_without] at refused_eq
  hasDirectory_eq other _ foreign := by
    have has_eq := congrArg (Disk.hasDirectory · other) same
    rwa [hasDirectory_without _ _ (foreign ∘ former other), hasDirectory_without _ _ foreign] at has_eq
  entry_eq path _ foreign := by
    have entry_eq := congrArg (Disk.entry? · path) same
    rwa [entry?_without _ _ (foreign ∘ former path.directory), entry?_without _ _ foreign] at entry_eq

theorem Within.without (disk : Disk) (directory : Option Nat) :
    Within (directory = some ·) disk (disk.without directory) :=
  @of_without_eq disk _ directory none rfl nofun

theorem Sound.without {disk : Disk} (sound : disk.Sound) (directory : Option Nat) :
    (disk.without directory).Sound := by
  cases directory with
  | none => exact sound
  | some directory => exact sound.forgetDirectory directory

end Disk

/-! ## Sources -/

/-- Sources whose answers depend on nothing but themselves, and that leave the temporary store alone. -/
structure Independent (σ : Type) [RecordSource σ α ε] : Prop where
  next : ∀ source : σ, ∃ result, ∀ host : Host, Ensures (RecordSource.next source) host fun given later =>
    given = result ∧ later.disk = host.disk
  close : ∀ source : σ, ∃ result, ∀ host : Host, Ensures (RecordSource.close source) host fun given later =>
    given = result ∧ later.disk = host.disk

theorem independent_script : Independent (Script α ε) where
  next source := ⟨source.next, fun _ => ⟨rfl, rfl⟩⟩
  close source := ⟨source.close, fun _ => ⟨rfl, rfl⟩⟩

/-! ## Streams -/

namespace SortedStream

variable {stream stream' : SortedStream σ α} {host : Host}

/-- A stream on a sound store that can find and remove what it has there, and that has nothing once it has ended. -/
structure Kept (stream : SortedStream σ α) (disk : Disk) : Prop extends stream.Fit disk where
  tidy : stream.Tidy
  sound : disk.Sound

/-- A request has touched the directory of the stream only. -/
structure Confined (before after : SortedStream σ α) (disk disk' : Disk) : Prop where
  kept : after.Kept disk'
  within : disk.Within (before.store.directory = some ·) disk'
  former : ∀ directory, after.store.directory = some directory → before.store.directory = some directory

theorem Confined.refl {disk : Disk} (kept : stream.Kept disk) : Confined stream stream disk disk :=
  ⟨kept, .refl _ _, fun _ => id⟩

theorem Confined.trans {before middle after : SortedStream σ α} {disk disk' disk'' : Disk}
    (first : Confined before middle disk disk') (second : Confined middle after disk' disk'') :
    Confined before after disk disk'' where
  kept := second.kept
  within := first.within.trans second.within fun directory mine => .inl (first.former directory mine)
  former directory mine := first.former directory (second.former directory mine)

/-- What others do in their directories does not matter to a stream. -/
theorem Kept.stable {own : Nat → Prop} {before after : Disk} (kept : stream.Kept before)
    (within : before.Within own after) (sound : after.Sound)
    (apart : ∀ directory, stream.store.directory = some directory → ¬ own directory) : stream.Kept after := by
  refine ⟨⟨kept.housed, ?_, ?_⟩, kept.tidy, sound⟩
  · intro directory mine
    have there := kept.removable.present directory mine
    rw [within.hasDirectory_eq directory (kept.sound.directory_lt _ there) (apart directory mine)]
    exact there
  · intro path live
    have mine := kept.housed.files path live
    have there := kept.removable.present path.directory mine
    rw [within.entry_eq path (kept.sound.directory_lt _ there) (apart _ mine)]
    exact kept.removable.files path live

/-- Where all that can be removed is the same as before, and no directory was made, only the directory of the stream
was touched. -/
theorem Kept.confined {disk disk' : Disk} {failed : Prop} (kept : stream.Kept disk)
    (houses : Houses stream stream' disk disk') (minds : Minds stream stream' failed disk disk') :
    Confined stream stream' disk disk' := by
  have without_eq := houses.without_eq kept.removable
  have former : ∀ directory, stream'.store.directory = some directory → stream.store.directory = some directory := by
    intro directory mine
    have next_eq := congrArg Disk.nextDirectory without_eq
    rw [Disk.nextDirectory_without, Disk.nextDirectory_without] at next_eq
    rcases minds.minds.since directory mine with earlier | ⟨new, small⟩
    · exact earlier
    · exact absurd (Nat.lt_of_le_of_lt new small) (Nat.not_lt.mpr (Nat.le_of_eq next_eq))
  exact ⟨⟨kept.toFit.houses houses, minds.tidy, minds.minds.sound⟩, .of_without_eq without_eq former, former⟩

theorem advance_confined (kept : stream.Kept host.disk) :
    Ensures (stream.advance (ε := ε)) host fun result later => Confined stream result.2 host.disk later.disk :=
  ((advance_houses kept.housed host).and (advance_minds kept.tidy kept.sound)).mono fun _ _ outcome =>
    kept.confined outcome.1 outcome.2

theorem hasNext_confined (kept : stream.Kept host.disk) :
    Ensures (stream.hasNext (ε := ε)) host fun result later => Confined stream result.2 host.disk later.disk :=
  ((hasNext_houses kept.housed host).and (hasNext_minds kept.tidy kept.sound)).mono fun _ _ outcome =>
    kept.confined outcome.1 outcome.2

theorem next_confined (kept : stream.Kept host.disk) :
    Ensures (stream.next (ε := ε)) host fun result later => Confined stream result.2 host.disk later.disk :=
  ((next_houses kept.housed host).and (next_minds kept.tidy kept.sound)).mono fun _ _ outcome =>
    kept.confined outcome.1 outcome.2

theorem skip_confined (count : Nat) (kept : stream.Kept host.disk) :
    Ensures (stream.skip (ε := ε) count) host fun result later => Confined stream result.2 host.disk later.disk := by
  refine skip_rule (fun stream' later => Confined stream stream' host.disk later.disk) ?_ (fun _ _ confined => confined)
    (.refl kept)
  intro stream' start confined
  apply (advance_confined confined.kept).mono
  rintro ⟨answer, stream''⟩ later confined'
  match answer with
  | .error error => exact confined.trans confined'
  | .ok none => exact confined.trans confined'
  | .ok (some record) => exact confined.trans confined'

variable [RecordSource σ α ε]

/-- Closing removes the directory, and the source has nothing on the temporary store. -/
theorem close_confined (independent : Independent (ε := ε) (α := α) σ) (kept : stream.Kept host.disk) :
    Ensures (stream.close (ε := ε)) host fun result later => Confined stream result.2 host.disk later.disk := by
  simp only [close]
  split
  · exact .refl kept
  · rw [Ensures.bind_iff]
    apply (SpillStore.close_spec kept.housed.files kept.removable).mono
    rintro result middle ⟨rfl, disk_eq⟩
    obtain ⟨closing, closes⟩ := independent.close stream.source
    rw [Ensures.bind_iff]
    apply (closes middle).mono
    rintro ⟨closed, source⟩ later ⟨-, same⟩
    rw [disk_eq] at same
    have emptied : Confined (α := α) stream
        { stream with phase := .closed, peeked := none, store := stream.store.emptied, source } host.disk later.disk := by
      rw [same]
      refine ⟨⟨⟨⟨trivial, stream.store.housed_emptied⟩, stream.store.removable_emptied _⟩, fun _ => rfl,
        kept.sound.without _⟩, .without host.disk stream.store.directory, ?_⟩
      rintro directory ⟨⟩
    cases closed with
    | error error => exact emptied
    | ok => exact emptied

theorem discard_confined [ErrorText ε] (independent : Independent (ε := ε) (α := α) σ) (kept : stream.Kept host.disk) :
    Ensures (stream.discard (ε := ε)) host fun dropped later => Confined stream dropped host.disk later.disk := by
  simp only [discard]
  split
  · exact .refl kept
  · rw [Ensures.bind_iff]
    apply (close_confined independent kept).mono
    rintro ⟨closed, stream'⟩ later confined
    cases closed with
    | error error => exact confined
    | ok => exact confined

theorem perform_confined (independent : Independent (ε := ε) (α := α) σ) (call : StreamCall)
    (kept : stream.Kept host.disk) :
    Ensures (stream.perform (ε := ε) call) host fun result later => Confined stream result.2 host.disk later.disk := by
  cases call with
  | hasNext => exact (hasNext_confined kept).mono fun _ _ confined => confined
  | next => exact (next_confined kept).mono fun _ _ confined => confined
  | iterate => exact (next_confined kept).mono fun _ _ confined => confined
  | close => exact (close_confined independent kept).mono fun _ _ confined => confined

end SortedStream

/-! ## Sorting -/

/-- What a store has is in a directory that was made since. -/
structure SpillStore.Begun (before : Disk) (store : SpillStore) (disk : Disk) : Prop where
  housed : store.Housed
  sound : disk.Sound
  within : before.Within (fun _ => False) disk
  since : ∀ directory, store.directory = some directory → before.nextDirectory ≤ directory

theorem SpillStore.Begun.write {before : Disk} {store : SpillStore} {host : Host}
    (begun : store.Begun before host.disk) (ready : store.Ready host.disk) (format : SpillFormat α)
    (records : List α) :
    Ensures (store.write format records) host fun result later => result.2.Begun before later.disk := by
  apply ((write_spec ready begun.sound).and
    ((store.write_minds format records begun.sound).and (write_files begun.housed format records host))).mono
  rintro ⟨answer, store'⟩ later ⟨⟨within, sound, -⟩, minds, housed⟩
  refine ⟨housed, sound, begun.within.trans within fun directory mine => .inr (begun.since directory mine), ?_⟩
  intro directory mine
  rcases minds.since directory mine with earlier | ⟨new, -⟩
  · exact begun.since directory earlier
  · exact Nat.le_trans begun.within.nextDirectory_le new

namespace Filling

variable {plan : RunPlan α} {filling : Filling σ α} {before : Disk} {host : Host}

/-- What has been read is in the runs and in the page, and the files of the runs are all that has been made. -/
structure Underway (plan : RunPlan α) (before : Disk) (filling : Filling σ α) (disk : Disk) : Prop where
  begun : filling.store.Begun before disk
  housed : filling.Housed
  cuts : ∃ read, filling.Cuts plan (fun _ => False) read disk

theorem underway_start (positive : 0 < plan.pageSize) (sound : before.Sound) (source : σ) (place : Place)
    (bufferSize : Option Nat) : (start plan source (.new place bufferSize)).Underway plan before before :=
  ⟨⟨nofun, sound, .refl _ _, nofun⟩, ⟨rfl, List.forall_mem_nil _⟩, [], cuts_start positive sound⟩

theorem Underway.ofSource {disk : Disk} (underway : filling.Underway plan before disk) (source : σ) :
    { filling with source }.Underway plan before disk := by
  obtain ⟨begun, housed, read, cuts⟩ := underway
  exact ⟨begun, ⟨housed.live_eq, housed.inside⟩, read, cuts.stable (.refl _ _) begun.sound fun _ => .inl⟩

theorem accept_underway (underway : filling.Underway plan before host.disk) (record : α) :
    Ensures (accept (ε := ε) plan filling record) host fun result later =>
      result.2.store.Begun before later.disk ∧ (result.1 = .ok () → result.2.Underway plan before later.disk) := by
  obtain ⟨begun, housed, read, cuts⟩ := underway
  have kept : Ensures (accept (ε := ε) plan filling record) host fun result later =>
      result.2.store.Begun before later.disk := by
    refine accept_rule (fun _ => begun) fun _ start same => ?_
    rw [← same] at begun cuts
    apply (begun.write cuts.ready plan.format _).mono
    rintro ⟨written, store⟩ later begun'
    cases written with
    | error error => exact begun'
    | ok handle => exact begun'
  apply (kept.and ((accept_spec cuts fun _ => False.elim).and (accept_housed housed record host))).mono
  rintro ⟨answer, fuller⟩ later ⟨begun', ⟨-, outcome⟩, housed'⟩
  refine ⟨begun', ?_⟩
  rintro rfl
  exact ⟨begun', housed' rfl, _, outcome.1⟩

variable [RecordSource σ α ε]

theorem readAll_underway (independent : Independent (ε := ε) (α := α) σ)
    (underway : filling.Underway plan before host.disk) :
    Ensures (modifyGet (readAll (ε := ε) plan filling)) host fun result later =>
      result.2.store.Begun before later.disk ∧ (result.1 = .ok () → result.2.Underway plan before later.disk) := by
  refine readAll_rule (fun filling start => filling.Underway plan before start.disk) ?_ underway
  intro filling start underway
  obtain ⟨result, asks⟩ := independent.next filling.source
  apply (asks start).mono
  rintro ⟨answer, source⟩ later ⟨-, same⟩
  rw [← same] at underway
  have asked := underway.ofSource source
  match answer with
  | .error error => exact ⟨asked.begun, nofun⟩
  | .ok none => exact ⟨asked.begun, fun _ => asked⟩
  | .ok (some record) =>
    apply (accept_underway asked record).mono
    rintro ⟨accepted, fuller⟩ last ⟨begun, onward⟩
    cases accepted with
    | error error => exact ⟨begun, nofun⟩
    | ok => exact onward rfl

theorem run_begun (independent : Independent (ε := ε) (α := α) σ) (positive : 0 < plan.pageSize)
    (sound : host.disk.Sound) (source : σ) (place : Place) (bufferSize : Option Nat) :
    Ensures (run (ε := ε) plan source (.new place bufferSize)) host fun result later =>
      result.2.store.Begun host.disk later.disk ∧ ∀ outcome, result.1 = .ok outcome →
        (result.2.Housed ∧ outcome.Lodged result.2.store.directory) ∧ result.2.store.Removable later.disk := by
  simp only [run]
  rw [Ensures.bind_iff]
  apply (readAll_underway independent (underway_start positive sound source place bufferSize)).mono
  rintro ⟨answer, filling⟩ later ⟨begun, onward⟩
  cases answer with
  | error error =>
    refine ⟨begun, ?_⟩
    rintro outcome ⟨⟩
  | ok =>
    obtain ⟨-, housed, read, cuts⟩ := onward rfl
    dsimp only
    rw [Ensures.bind_iff]
    apply ((conclude_lodged housed plan later).and (filling.conclude_disk plan later)).mono
    rintro concluded last ⟨lodged, same⟩
    rw [← same] at begun cuts
    exact ⟨begun, fun outcome equal => ⟨⟨housed, lodged outcome equal⟩, housed.removable cuts⟩⟩

end Filling

namespace Sorter

variable [RecordSource σ α ε] [ErrorText ε]

/-- The stream made of what filling ended with can find and remove what is in its directory. -/
theorem openStream_kept (compare : Comparison α) {filling : Filling σ α} {outcome : Filling.Outcome α} {disk : Disk}
    (housed : filling.Housed) (lodged : outcome.Lodged filling.store.directory)
    (removable : filling.store.Removable disk) (sound : disk.Sound) : (openStream compare filling outcome).Kept disk := by
  refine ⟨⟨openStream_housed compare housed lodged, ?_⟩, ?_, sound⟩
  · cases outcome <;> exact removable
  · cases outcome <;> exact fun ended => ended.elim

/-- The offset is skipped in the directory of the stream, also if the stream is discarded for it. -/
theorem position_confined (independent : Independent (ε := ε) (α := α) σ) (sorter : Sorter)
    {stream : SortedStream σ α} {host : Host} (kept : stream.Kept host.disk) :
    Ensures (sorter.position (ε := ε) stream) host fun result later =>
      (host.disk.Within (stream.store.directory = some ·) later.disk ∧ later.disk.Sound) ∧
        ∀ stream', result = .ok stream' → SortedStream.Confined stream stream' host.disk later.disk := by
  refine position_rule fun start same => ?_
  rw [← same] at kept ⊢
  apply (SortedStream.skip_confined (ε := ε) sorter.options.offset kept).mono
  rintro ⟨skipped, stream'⟩ middle confined
  cases skipped with
  | error error =>
    apply (SortedStream.discard_confined independent confined.kept).mono
    intro dropped last confined'
    have whole := confined.trans confined'
    refine ⟨⟨whole.within, whole.kept.sound⟩, ?_⟩
    rintro other ⟨⟩
  | ok =>
    refine ⟨⟨confined.within, confined.kept.sound⟩, ?_⟩
    rintro limited ⟨⟩
    obtain ⟨⟨⟨⟨runs, files⟩, removable⟩, tidy, sound⟩, within, former⟩ := confined
    refine ⟨?_, within, former⟩
    exact ⟨⟨⟨runs, files⟩, removable⟩, tidy, sound⟩

/-- Sorting touches nothing that was there, and what the stream has is all in a new directory. -/
theorem sortBy_confined (independent : Independent (ε := ε) (α := α) σ) (sorter : Sorter) (format : SpillFormat α)
    (compare : Comparison α) (source : σ) {host : Host} (sound : host.disk.Sound) :
    Ensures (sorter.sortBy (ε := ε) format compare source) host fun result later =>
      (host.disk.Within (fun _ => False) later.disk ∧ later.disk.Sound) ∧ ∀ stream, result = .ok stream →
        stream.Kept later.disk ∧ ∀ directory, stream.store.directory = some directory →
          host.disk.nextDirectory ≤ directory := by
  simp only [sortBy]
  rw [Ensures.bind_iff]
  apply (@Filling.run_begun _ _ _ ⟨compare, format, sorter.options.pageSize⟩ _ _ independent sorter.pageSize_pos sound source
    sorter.options.place sorter.options.bufferSize).mono
  rintro ⟨answer, filling⟩ later ⟨begun, ready⟩
  cases answer with
  | error error =>
    have inside : ∀ path ∈ filling.store.live, host.disk.nextDirectory ≤ path.directory :=
      fun path live => begun.since path.directory (begun.housed path live)
    dsimp only
    rw [Ensures.bind_iff]
    apply abort_rule
    apply ((filling.store.discard_minds begun.sound).and (SpillStore.discard_within inside begun.since later)).mono
    rintro store middle ⟨⟨minds, -⟩, within⟩
    obtain ⟨closing, closes⟩ := independent.close filling.source
    have released : Ensures (releaseSource (ε := ε) filling.source) middle fun _ last => last.disk = middle.disk := by
      simp only [releaseSource]
      rw [Ensures.bind_iff]
      apply (closes middle).mono
      rintro ⟨closed, source'⟩ last ⟨-, same⟩
      cases closed with
      | error error => exact same
      | ok => exact same
    have discarded := begun.within.trans within fun _ => .inr
    refine ⟨fun _ => ⟨⟨discarded, minds.sound⟩, ?_⟩, fun _ => released.mono ?_⟩
    · rintro stream ⟨⟩
    · rintro source' last same
      rw [Ensures.pure_iff, same]
      refine ⟨⟨discarded, minds.sound⟩, ?_⟩
      rintro stream ⟨⟩
  | ok outcome =>
    obtain ⟨⟨housed, lodged⟩, removable⟩ := ready outcome rfl
    have kept : (openStream compare filling outcome).Kept later.disk :=
      openStream_kept compare housed lodged removable begun.sound
    have since : ∀ directory, (openStream compare filling outcome).store.directory = some directory →
        host.disk.nextDirectory ≤ directory := by cases outcome <;> exact begun.since
    apply (position_confined independent sorter kept).mono
    rintro result last ⟨⟨within, sound'⟩, confined⟩
    refine ⟨⟨begun.within.trans within fun directory mine => .inr (since directory mine), sound'⟩, fun stream given => ?_⟩
    obtain ⟨kept', -, former⟩ := confined stream given
    exact ⟨kept', fun directory mine => since directory (former directory mine)⟩

end Sorter

end SpillSort
