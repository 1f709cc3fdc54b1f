import SpillSort.Proofs.SortedOutput

/-! # Where a source is cut into runs

A source is cut into pages of the page size, from its first record on. Page after page is sorted and written
under the next run name, and what is left at the end, be it nothing, stays in memory sorted. The page that is
being filled never holds more than a page, and what does not fill a page leaves the temporary store alone.
-/

namespace SpillSort

variable {σ α ε : Type}

/-- One of the pages that records are cut into. -/
def pageOf (size : Nat) (records : List α) (index : Nat) : List α := (records.drop (index * size)).take size

/-- A page is not changed by what comes after it. -/
theorem pageOf_append {size index : Nat} {records : List α} (whole : (index + 1) * size ≤ records.length)
    (later : List α) : pageOf size (records ++ later) index = pageOf size records index := by
  rw [Nat.succ_mul] at whole
  rw [pageOf, List.drop_append_of_le_length (by omega), List.take_append_of_le_length, pageOf]
  rw [List.length_drop]
  omega

/-- The pages from the first one on make up the records. -/
theorem flatten_pageOf (size : Nat) (records : List α) (count : Nat) :
    ((List.range count).map (pageOf size records)).flatten = records.take (count * size) := by
  induction count with
  | zero => rw [List.range_zero, List.map_nil, List.flatten_nil, Nat.zero_mul, List.take_zero]
  | succ count ih =>
    rw [List.range_succ, List.map_append, List.flatten_append, ih, List.map_singleton, List.flatten_singleton, pageOf,
      Nat.succ_mul, List.take_add]

theorem mem_take_iff {size count : Nat} {records : List α} {record : α} :
    record ∈ records.take (count * size) ↔ ∃ index < count, record ∈ pageOf size records index := by
  rw [← flatten_pageOf, List.mem_flatten]
  constructor
  · rintro ⟨page, among, present⟩
    obtain ⟨index, known, rfl⟩ := List.mem_map.mp among
    exact ⟨index, List.mem_range.mp known, present⟩
  · rintro ⟨index, known, present⟩
    exact ⟨_, List.mem_map_of_mem (List.mem_range.mpr known), present⟩

namespace Filling

variable {plan : RunPlan α} {own : Nat → Prop} {filling : Filling σ α} {read : List α} {disk : Disk}

/-! ## Pages by their numbers -/

/-- The runs have the pages of what has been read, in order and under the names of their numbers, and the page has
the rest. There is nothing else in the directory, and none before the first run. -/
structure Numbered (plan : RunPlan α) (filling : Filling σ α) (read : List α) (disk : Disk) : Prop where
  runs : ∀ (index : Nat) handle, filling.runs[index]? = some handle → handle.path.name = runName index ∧
    handle.Holds plan.format (plan.compare.stableSort (pageOf plan.pageSize read index)) disk
  page_eq : filling.page.toList = read.drop (filling.runs.length * plan.pageSize)
  nextId_eq : filling.store.nextId = filling.runs.length
  names : ∀ path, filling.store.directory = some path.directory → disk.entry? path ≠ none →
    ∃ index < filling.runs.length, path.name = runName index
  fresh : filling.runs = [] → filling.store.directory = none

theorem numbered_start (plan : RunPlan α) (source : σ) (place : Place) (bufferSize : Option Nat) (disk : Disk) :
    (start plan source (.new place bufferSize)).Numbered plan [] disk :=
  ⟨nofun, List.drop_nil.symm, rfl, nofun, fun _ => rfl⟩

theorem Numbered.held (numbered : filling.Numbered plan read disk) :
    ∀ handle ∈ filling.runs, ∃ records, handle.Holds plan.format records disk := by
  intro handle present
  obtain ⟨index, found⟩ := List.getElem?_of_mem present
  exact ⟨_, (numbered.runs index handle found).2⟩

/-- Runs are full pages. -/
theorem Cuts.whole (cuts : filling.Cuts plan own read disk) {index : Nat} (known : index < filling.runs.length) :
    (index + 1) * plan.pageSize ≤ read.length := by
  have within : (index + 1) * plan.pageSize ≤ filling.runs.length * plan.pageSize := Nat.mul_le_mul_right _ known
  rw [cuts.length_eq]
  omega

/-- There are as many runs as full pages. -/
theorem Cuts.length_runs (cuts : filling.Cuts plan own read disk) :
    filling.runs.length = read.length / plan.pageSize := by
  have room := cuts.room
  rw [cuts.length_eq, Nat.mul_comm, Nat.mul_add_div (by omega), Nat.div_eq_of_lt room, Nat.add_zero]

/-- What the source does within its own directories is not noticed. -/
theorem Numbered.stable (numbered : filling.Numbered plan read disk) (cuts : filling.Cuts plan own read disk)
    {after : Disk} (within : disk.Within own after) (source : σ) :
    { filling with source }.Numbered plan read after := by
  refine ⟨?_, numbered.page_eq, numbered.nextId_eq, ?_, numbered.fresh⟩
  · intro index handle found
    obtain ⟨name_eq, holds⟩ := numbered.runs index handle found
    have mine := cuts.inside handle (List.mem_of_getElem? found)
    exact ⟨name_eq, holds.stable fun node there => within.file_eq cuts.sound there (cuts.apart _ mine)⟩
  · intro path mine present
    have old := cuts.sound.directory_lt _ (cuts.ready.present _ mine)
    rw [within.entry_eq path old (cuts.apart _ mine)] at present
    exact numbered.names path mine present

/-- A record that does not fill the page is one more there. -/
theorem Numbered.kept (numbered : filling.Numbered plan read disk) (cuts : filling.Cuts plan own read disk)
    (record : α) : { filling with page := filling.page.offer record }.Numbered plan (read ++ [record]) disk := by
  refine ⟨?_, ?_, numbered.nextId_eq, numbered.names, numbered.fresh⟩
  · intro index handle found
    obtain ⟨name_eq, holds⟩ := numbered.runs index handle found
    rw [pageOf_append (cuts.whole (List.getElem?_eq_some_iff.mp found).1)]
    exact ⟨name_eq, holds⟩
  · change (filling.page.offer record).toList = (read ++ [record]).drop (filling.runs.length * plan.pageSize)
    have length_eq := cuts.length_eq
    rw [Page.toList_offer, numbered.page_eq, List.drop_append_of_le_length (by omega)]

/-- A full page is the next of the pages of what has been read. -/
theorem Numbered.pageOf_eq (numbered : filling.Numbered plan read disk) (cuts : filling.Cuts plan own read disk)
    {record : α} (full : (filling.page.offer record).isFull) :
    pageOf plan.pageSize (read ++ [record]) filling.runs.length = (filling.page.offer record).toList := by
  have length_eq := cuts.length_of_full full
  have before := cuts.length_eq
  rw [Page.toList_offer, numbered.page_eq, pageOf, List.drop_append_of_le_length (by omega)]
  apply List.take_of_length_le
  rw [List.length_append, List.length_drop, List.length_singleton]
  rw [List.length_append, List.length_singleton, Nat.succ_mul] at length_eq
  omega

/-- A full page that was written is the next run. -/
theorem Numbered.spilled (numbered : filling.Numbered plan read disk) (cuts : filling.Cuts plan own read disk)
    {record : α} {after : Disk} {handle : SpillHandle} {store : SpillStore}
    (full : (filling.page.offer record).isFull) (within : disk.Within (¬ own ·) after)
    (wrote : filling.store.Wrote plan.format (plan.compare.stableSort (filling.page.offer record).toList) disk handle
      store after)
    (name_eq : handle.path.name = runName filling.store.nextId) (nextId_eq : store.nextId = filling.store.nextId + 1)
    (only : ∀ path, after.entry? path ≠ none → path = handle.path ∨ disk.entry? path ≠ none) :
    { filling with store, page := .empty plan.pageSize, runs := filling.runs ++ [handle] }.Numbered plan
      (read ++ [record]) after := by
  refine ⟨?_, ?_, ?_, ?_, ?_⟩
  · intro index other found
    rcases Nat.lt_or_ge index filling.runs.length with old | new
    · rw [List.getElem?_append_left old] at found
      obtain ⟨name_eq', holds⟩ := numbered.runs index other found
      rw [pageOf_append (cuts.whole old)]
      exact ⟨name_eq', wrote.still_holds within cuts.sound holds⟩
    · obtain rfl : index = filling.runs.length := by
        have bound := (List.getElem?_eq_some_iff.mp found).1
        rw [List.length_append, List.length_singleton] at bound
        omega
      rw [List.getElem?_append_right new, Nat.sub_self] at found
      obtain rfl : handle = other := Option.some.inj found
      rw [numbered.pageOf_eq cuts full]
      exact ⟨name_eq.trans (by rw [numbered.nextId_eq]), wrote.holds⟩
  · change ([] : List α) = _
    symm
    apply List.drop_eq_nil_of_le
    rw [cuts.length_of_full full, List.length_append, List.length_singleton]
  · change store.nextId = (filling.runs ++ [handle]).length
    rw [nextId_eq, numbered.nextId_eq, List.length_append, List.length_singleton]
  · intro path mine present
    rw [List.length_append, List.length_singleton]
    obtain directory_eq : handle.path.directory = path.directory :=
      Option.some.inj (wrote.directory_eq.symm.trans mine)
    rcases only path present with rfl | old
    · exact ⟨_, Nat.lt_succ_self _, name_eq.trans (by rw [numbered.nextId_eq])⟩
    · rcases wrote.since with same | ⟨-, new⟩
      · obtain ⟨index, known, name_eq'⟩ := numbered.names path (same.trans (congrArg _ directory_eq)) old
        exact ⟨index, Nat.lt_succ_of_lt known, name_eq'⟩
      · have there := cuts.sound.directory_lt _ (cuts.sound.inside path old)
        exact absurd (directory_eq ▸ new) (Nat.not_le.mpr there)
  · intro none_spilled
    exact absurd none_spilled (by simp)

theorem accept_numbered {record : α} {host : Host} (numbered : filling.Numbered plan read host.disk)
    (cuts : filling.Cuts plan own read host.disk) :
    Ensures (accept (ε := ε) plan filling record) host fun result later => result.1 = .ok () →
      result.2.Numbered plan (read ++ [record]) later.disk := by
  refine accept_rule (fun _ _ => numbered.kept cuts record) ?_
  intro full start same
  rw [← same] at numbered cuts
  apply ((SpillStore.write_spec cuts.ready cuts.sound).and (SpillStore.write_names cuts.ready cuts.sound)).mono
  rintro ⟨written, store⟩ later ⟨⟨within, -, outcome⟩, names⟩
  cases written with
  | error error => exact nofun
  | ok handle =>
    rintro -
    obtain ⟨name_eq, nextId_eq, only⟩ := names handle rfl
    exact numbered.spilled cuts full (within.mono cuts.apart) outcome name_eq nextId_eq only

/-- A source that has been read is cut into pages by their numbers, unless one of them cannot be written. -/
theorem readAll_numbered [RecordSource σ α ε] {records : List α} {source : σ} {place : Place}
    {bufferSize : Option Nat} {host : Host} (yields : Yields records source own host.disk)
    (sound : host.disk.Sound) (positive : 0 < plan.pageSize) :
    Ensures (modifyGet (readAll plan (start plan source (.new place bufferSize)))) host fun result later =>
      match result.1 with
      | .error _ => ∃ full, full <+: records ∧ full ≠ [] ∧ plan.pageSize ∣ full.length ∧
          ¬ (SpillStore.new place bufferSize).Accepts plan.format full host.disk
      | .ok () => ∃ own', result.2.Cuts plan own' records later.disk ∧ result.2.Numbered plan records later.disk := by
  have cuts : (start plan source (.new place bufferSize)).Cuts plan own [] host.disk := cuts_start positive sound
  have numbered := numbered_start plan source place bufferSize host.disk
  have both := @readAll_yields _ _ ε plan _ (fun own filling read disk => filling.Cuts plan own read disk ∧
      filling.Numbered plan read disk) (fun _ _ => True) (fun holds => holds.1.sound) ?_ ?_ records [] _ own _ host
    yields (.refl _ _) ⟨cuts, numbered⟩
  · apply ((readAll_spec yields (.refl _ _) cuts).and both).mono
    rintro ⟨answer, filled⟩ later ⟨outcome, numbered'⟩
    cases answer with
    | error error => exact outcome
    | ok => exact numbered'
  · rintro own own' filling read disk after source ⟨cuts, numbered⟩ within sound since
    exact ⟨cuts.stable within sound since, numbered.stable cuts within source⟩
  · rintro own filling read record start ⟨cuts, numbered⟩ owned
    apply ((accept_spec cuts owned).and (accept_numbered numbered cuts)).mono
    rintro ⟨accepted, fuller⟩ last ⟨⟨within, outcome⟩, numbered'⟩
    refine ⟨within, ?_⟩
    cases accepted with
    | error error => exact trivial
    | ok => exact ⟨outcome.1, numbered' rfl⟩

/-! ## The page while it is filled -/

/-- The moments between two records while a source is read. -/
inductive Reaches [RecordSource σ α ε] (plan : RunPlan α) : Filling σ α → Host → Filling σ α → Host → Prop
  | here {filling : Filling σ α} {host : Host} : Reaches plan filling host filling host
  | onward {filling fuller last : Filling σ α} {host middle later final : Host} {record : α} {source : σ} :
    (RecordSource.next filling.source).run host = ((.ok (some record), source), middle) →
    (accept (ε := ε) plan { filling with source } record).run middle = ((.ok (), fuller), later) →
      Reaches plan fuller later last final → Reaches plan filling host last final

/-- With a record taken reading goes on from there. -/
theorem readAll_step [RecordSource σ α ε] {fuller : Filling σ α} {host middle later : Host} {record : α} {source : σ}
    (read : (RecordSource.next filling.source).run host = ((.ok (some record), source), middle))
    (accepted : (accept (ε := ε) plan { filling with source } record).run middle = ((.ok (), fuller), later)) :
    readAll (ε := ε) plan filling host = readAll plan fuller later := by
  have step := congrArg (StateT.run · host) (Filling.readAll_eq (ε := ε) plan filling)
  change readAll plan filling host = _ at step
  rw [StateT.run_bind, read] at step
  change readAll plan filling host = StateT.run (accept _ _ _ >>= _) middle at step
  rw [StateT.run_bind, accepted] at step
  exact step

/-- From each of these moments on reading goes on as from the first. -/
theorem Reaches.readAll_eq [RecordSource σ α ε] {filling last : Filling σ α} {host final : Host}
    (reaches : Reaches (ε := ε) plan filling host last final) :
    readAll (ε := ε) plan last final = readAll plan filling host := by
  induction reaches with
  | here => rfl
  | onward read accepted _ ih => exact ih.trans (readAll_step read accepted).symm

/-- The page holds fewer records than a page is for, and after an error at most so many. -/
structure Roomy (plan : RunPlan α) (filling : Filling σ α) : Prop where
  limit_eq : filling.page.limit = plan.pageSize
  room : filling.page.size < plan.pageSize

theorem accept_roomy (positive : 0 < plan.pageSize) {record : α} (roomy : filling.Roomy plan) (host : Host) :
    Ensures (accept (ε := ε) plan filling record) host fun result _ =>
      match result.1 with
      | .error _ => result.2.page.size ≤ plan.pageSize
      | .ok () => result.2.Roomy plan := by
  have within : (filling.page.offer record).size ≤ plan.pageSize := by
    have room := roomy.room
    rw [Page.size_offer]
    omega
  refine accept_rule ?_ ?_
  · intro notFull
    refine ⟨roomy.limit_eq, ?_⟩
    simp only [Page.isFull, decide_eq_true_eq, Nat.not_le] at notFull
    exact Nat.lt_of_lt_of_eq notFull roomy.limit_eq
  · intro full start _
    apply Ensures.intro
    rintro ⟨written, store⟩ later -
    cases written with
    | error error => exact within
    | ok handle => exact ⟨rfl, positive⟩

theorem Reaches.roomy [RecordSource σ α ε] (positive : 0 < plan.pageSize) {filling last : Filling σ α}
    {host final : Host} (reaches : Reaches (ε := ε) plan filling host last final) (roomy : filling.Roomy plan) :
    last.Roomy plan := by
  induction reaches with
  | here => exact roomy
  | @onward filling fuller last host middle later final record source read accepted _ ih =>
    have roomy' : { filling with source }.Roomy plan := ⟨roomy.limit_eq, roomy.room⟩
    exact ih ((accept_roomy positive roomy' middle).of_run accepted)

theorem readAll_roomy [RecordSource σ α ε] (positive : 0 < plan.pageSize) (roomy : filling.Roomy plan) (host : Host) :
    Ensures (modifyGet (readAll (ε := ε) plan filling)) host fun result _ => result.2.page.size ≤ plan.pageSize := by
  refine readAll_rule (fun filling _ => filling.Roomy plan) ?_ roomy
  intro filling start roomy
  apply Ensures.intro
  rintro ⟨answer, source⟩ later -
  match answer with
  | .error error => exact Nat.le_of_lt roomy.room
  | .ok none => exact Nat.le_of_lt roomy.room
  | .ok (some record) =>
    have roomy' : { filling with source }.Roomy plan := ⟨roomy.limit_eq, roomy.room⟩
    apply (accept_roomy positive roomy' later).mono
    rintro ⟨accepted, fuller⟩ last outcome
    cases accepted with
    | error error => exact outcome
    | ok => exact outcome

/-- Up to the first run nothing is done to the temporary store but what the source does. -/
theorem readAll_unspilled [RecordSource σ α ε] {kept : Disk → Prop}
    (keeps : ∀ (source : σ) (host : Host), kept host.disk →
      Ensures (RecordSource.next (ε := ε) source) host fun _ later => kept later.disk)
    (source : σ) (store : SpillStore) {host : Host} (holds : kept host.disk) :
    Ensures (modifyGet (readAll (ε := ε) plan (start plan source store))) host fun result later =>
      result.1 = .ok () → result.2.runs = [] → result.2.store = store ∧ kept later.disk := by
  refine readAll_rule (fun filling later => filling.runs = [] → filling.store = store ∧ kept later.disk) ?_
    fun _ => ⟨rfl, holds⟩
  intro filling begin untouched
  apply Ensures.intro
  rintro ⟨answer, source⟩ later ran
  have untouched' : filling.runs = [] → filling.store = store ∧ kept later.disk := fun none_spilled =>
    ⟨(untouched none_spilled).1, (keeps filling.source begin (untouched none_spilled).2).of_run ran⟩
  match answer with
  | .error error => exact nofun
  | .ok none => exact fun _ => untouched'
  | .ok (some record) =>
    refine accept_rule (fun _ => untouched') fun _ start _ => ?_
    apply Ensures.intro
    rintro ⟨written, store'⟩ last -
    cases written with
    | error error => exact nofun
    | ok handle => exact fun none_spilled => absurd none_spilled (by simp)

/-! ## The runs and the last page -/

/-- A run opened for merging: none of its records has been read, and its file is deleted after the last. -/
def Opened (format : SpillFormat α) (handle : SpillHandle) (run : RunReader α) : Prop :=
  ∃ file left, run = .spilled ⟨format, some file, handle.path, handle.records, left, true⟩

theorem openRuns_opened {format : SpillFormat α} {store : SpillStore} {handles : List SpillHandle} {host : Host}
    (held : ∀ handle ∈ handles, ∃ records, handle.Holds format records host.disk) :
    Ensures (openRuns format store handles) host fun result _ => ∃ opened, result = .ok opened ∧
      List.Forall₂ (Opened format) handles opened := by
  induction handles with
  | nil => exact ⟨[], rfl, .nil⟩
  | cons handle handles ih =>
    obtain ⟨⟨records, holds⟩, others⟩ := List.forall_mem_cons.mp held
    simp only [openRuns]
    rw [Ensures.bind_iff]
    apply (store.openReader_found holds).mono
    rintro answer later ⟨rfl, node, frames, file, -, -, -, -, rfl⟩
    dsimp only
    rw [Ensures.bind_iff]
    apply (ih others).mono
    rintro answer last ⟨opened, rfl, tail⟩
    exact ⟨_, rfl, .cons ⟨file, frames.length, by rw [holds.records_eq]; rfl⟩ tail⟩

/-- What filling ends with: the last page alone, or the spilled runs and the last page. -/
def Outcome.Ends (format : SpillFormat α) (runs : List SpillHandle) (page : List α) : Outcome α → Prop
  | .memory records => runs = [] ∧ records = page
  | .runs readers => runs ≠ [] ∧ ∃ opened, readers = opened ++ [.memory page] ∧ List.Forall₂ (Opened format) runs opened

/-- Records are cut into runs: one for each full page, which holds the stable sort of that page, under names of
their own that are all there is in the directory. The rest of the records is sorted in memory. -/
structure Partitions (plan : RunPlan α) (records : List α) (filling : Filling σ α) (outcome : Outcome α)
    (disk : Disk) : Prop where
  count : filling.runs.length = records.length / plan.pageSize
  runs : ∀ (index : Nat) handle, filling.runs[index]? = some handle →
    filling.store.directory = some handle.path.directory ∧ handle.path.name = runName index ∧
      handle.Holds plan.format (plan.compare.stableSort (pageOf plan.pageSize records index)) disk
  names : ∀ path, filling.store.directory = some path.directory →
    (disk.entry? path ≠ none ↔ ∃ index < records.length / plan.pageSize, path.name = runName index)
  last : outcome.Ends plan.format filling.runs
    (plan.compare.stableSort (records.drop (records.length / plan.pageSize * plan.pageSize)))

/-- What has been read is cut into runs when it is all that there is. -/
theorem Numbered.partitions {records : List α} {outcome : Outcome α} (numbered : filling.Numbered plan records disk)
    (cuts : filling.Cuts plan own records disk)
    (ends : outcome.Ends plan.format filling.runs (plan.compare.stableSort filling.page.toList)) :
    filling.Partitions plan records outcome disk := by
  have count := cuts.length_runs
  rw [numbered.page_eq, count] at ends
  refine ⟨count, ?_, ?_, ends⟩
  · intro index handle found
    obtain ⟨name_eq, holds⟩ := numbered.runs index handle found
    exact ⟨cuts.inside handle (List.mem_of_getElem? found), name_eq, holds⟩
  · intro path mine
    rw [← count]
    refine ⟨numbered.names path mine, ?_⟩
    rintro ⟨index, known, name_eq⟩
    have found := List.getElem?_eq_getElem known
    obtain ⟨name_eq', holds⟩ := numbered.runs index _ found
    obtain ⟨node, -, there, -⟩ := holds.file
    have directory_eq : filling.runs[index].path.directory = path.directory :=
      Option.some.inj ((cuts.inside _ (List.getElem_mem known)).symm.trans mine)
    have path_eq : filling.runs[index].path = path := by
      change SpillPath.mk filling.runs[index].path.directory filling.runs[index].path.name = path
      rw [directory_eq, name_eq', ← name_eq]
    rw [← path_eq, there]
    exact Option.some_ne_none _

theorem conclude_partitions {records : List α} {host : Host} (cuts : filling.Cuts plan own records host.disk)
    (numbered : filling.Numbered plan records host.disk) :
    Ensures (filling.conclude (ε := ε) plan) host fun result later => ∃ outcome, result = .ok outcome ∧
      filling.Partitions plan records outcome later.disk := by
  refine conclude_rule ?_ ?_
  · intro none_spilled start same
    rw [← same] at cuts numbered
    exact ⟨_, rfl, numbered.partitions cuts ⟨none_spilled, rfl⟩⟩
  · intro some_spilled start same
    rw [← same] at cuts numbered
    apply ((openRuns_opened numbered.held).and (openRuns_disk plan.format filling.store filling.runs start)).mono
    rintro answer later ⟨⟨opened, rfl, all⟩, rfl⟩
    exact ⟨_, rfl, numbered.partitions cuts ⟨some_spilled, opened, rfl, all⟩⟩

/-- A source that has been read is cut into runs, unless a full page cannot be written. -/
theorem run_partitions [RecordSource σ α ε] {records : List α} {source : σ} {place : Place}
    {bufferSize : Option Nat} {host : Host} (yields : Yields records source own host.disk)
    (sound : host.disk.Sound) (positive : 0 < plan.pageSize) :
    Ensures (run (ε := ε) plan source (.new place bufferSize)) host fun result later =>
      result.2.page.size ≤ plan.pageSize ∧
        match result.1 with
        | .error _ => ∃ full, full <+: records ∧ full ≠ [] ∧ plan.pageSize ∣ full.length ∧
            ¬ (SpillStore.new place bufferSize).Accepts plan.format full host.disk
        | .ok outcome => result.2.Partitions plan records outcome later.disk := by
  have roomy : (start plan source (.new place bufferSize)).Roomy plan := ⟨rfl, positive⟩
  simp only [run]
  rw [Ensures.bind_iff]
  apply ((readAll_numbered yields sound positive).and (readAll_roomy positive roomy host)).mono
  rintro ⟨answer, filled⟩ later ⟨outcome, within⟩
  cases answer with
  | error error => exact ⟨within, outcome⟩
  | ok =>
    obtain ⟨own', cuts, numbered⟩ := outcome
    dsimp only
    rw [Ensures.bind_iff]
    apply (conclude_partitions cuts numbered).mono
    rintro result last ⟨outcome, rfl, partitions⟩
    exact ⟨within, partitions⟩

/-- Less than a page is read without doing anything to the temporary store. -/
theorem run_few [RecordSource σ α ε] {records : List α} {source : σ} {place : Place} {bufferSize : Option Nat}
    {host : Host} (yields : Yields records source own host.disk) (sound : host.disk.Sound)
    (few : records.length < plan.pageSize) {kept : Disk → Prop}
    (keeps : ∀ (source : σ) (host : Host), kept host.disk →
      Ensures (RecordSource.next (ε := ε) source) host fun _ later => kept later.disk) (holds : kept host.disk) :
    Ensures (run (ε := ε) plan source (.new place bufferSize)) host fun result later =>
      result.2.store = .new place bufferSize ∧ kept later.disk := by
  have positive := Nat.zero_lt_of_lt few
  simp only [run]
  rw [Ensures.bind_iff]
  apply ((readAll_numbered yields sound positive).and (readAll_unspilled keeps source (.new place bufferSize) holds)).mono
  rintro ⟨answer, filled⟩ later ⟨outcome, untouched⟩
  cases answer with
  | error error =>
    obtain ⟨full, part, some, ⟨count, length_eq⟩, -⟩ := outcome
    have short := Nat.lt_of_le_of_lt part.length_le few
    cases count with
    | zero => exact absurd (List.length_eq_zero_iff.mp length_eq) some
    | succ count =>
      rw [length_eq, Nat.mul_succ] at short
      omega
  | ok =>
    obtain ⟨own', cuts, -⟩ := outcome
    have none_spilled : filled.runs = [] := by
      rw [← List.length_eq_zero_iff, cuts.length_runs, Nat.div_eq_of_lt few]
    obtain ⟨store_eq, holds'⟩ := untouched rfl none_spilled
    dsimp only
    rw [Ensures.bind_iff]
    apply (filled.conclude_disk plan later).mono
    intro result last same
    exact ⟨store_eq, same ▸ holds'⟩

end Filling

/-! ## The number of runs of a stream -/

namespace SortedStream

variable (stream : SortedStream σ α) (host : Host)

theorem finish_spilledRuns : Ensures stream.finish host fun ended _ => ended.spilledRuns = stream.spilledRuns := by
  simp only [finish]
  split <;> rfl

theorem settle_spilledRuns (answer : Option (Except SpillError α)) :
    Ensures (stream.settle (ε := ε) answer) host fun result _ => result.2.spilledRuns = stream.spilledRuns := by
  match answer with
  | none => exact stream.finish_spilledRuns host
  | some (.error error) =>
    simp only [settle]
    rw [Ensures.bind_iff]
    exact Ensures.report fun start _ => stream.finish_spilledRuns start
  | some (.ok record) =>
    simp only [settle]
    split
    · exact finish_spilledRuns { stream with remaining := stream.remaining.map (· - 1) } host
    · rfl

theorem advance_spilledRuns :
    Ensures (stream.advance (ε := ε)) host fun result _ => result.2.spilledRuns = stream.spilledRuns := by
  simp only [advance]
  split
  · rfl
  · split
    · rfl
    · rw [Ensures.bind_iff]
      apply Ensures.intro
      rintro ⟨answer, phase⟩ later -
      exact settle_spilledRuns { stream with phase } later answer

theorem hasNext_spilledRuns :
    Ensures (stream.hasNext (ε := ε)) host fun result _ => result.2.spilledRuns = stream.spilledRuns := by
  simp only [hasNext]
  split
  · rfl
  · rw [Ensures.bind_iff]
    apply (stream.advance_spilledRuns host).mono
    rintro ⟨answer, stream'⟩ later same
    cases answer with
    | error error => exact same
    | ok peeked => exact same

theorem next_spilledRuns :
    Ensures (stream.next (ε := ε)) host fun result _ => result.2.spilledRuns = stream.spilledRuns := by
  simp only [next]
  split
  · rfl
  · exact stream.advance_spilledRuns host

theorem skip_spilledRuns (count : Nat) :
    Ensures (stream.skip (ε := ε) count) host fun result _ => result.2.spilledRuns = stream.spilledRuns := by
  refine skip_rule (fun stream' _ => stream'.spilledRuns = stream.spilledRuns) ?_ (fun _ _ same => same) rfl
  intro stream' start same
  apply (stream'.advance_spilledRuns start).mono
  rintro ⟨answer, stream''⟩ later same'
  match answer with
  | .error error => exact same'.trans same
  | .ok none => exact same'.trans same
  | .ok (some record) => exact same'.trans same

variable [RecordSource σ α ε]

theorem close_spilledRuns :
    Ensures (stream.close (ε := ε)) host fun result _ => result.2.spilledRuns = stream.spilledRuns := by
  simp only [close]
  split
  · rfl
  · rw [Ensures.bind_iff]
    apply Ensures.intro
    rintro ⟨disposed, store⟩ later -
    rw [Ensures.bind_iff]
    apply Ensures.intro
    rintro ⟨closed, source⟩ last -
    cases closed <;> cases disposed <;> rfl

theorem perform_spilledRuns (call : StreamCall) :
    Ensures (stream.perform (ε := ε) call) host fun result _ => result.2.spilledRuns = stream.spilledRuns := by
  simp only [perform]
  cases call with
  | hasNext => exact Ensures.bind_iff.mpr (stream.hasNext_spilledRuns host)
  | next => exact Ensures.bind_iff.mpr (stream.next_spilledRuns host)
  | iterate => exact Ensures.bind_iff.mpr (stream.next_spilledRuns host)
  | close => exact Ensures.bind_iff.mpr (stream.close_spilledRuns host)

theorem play_spilledRuns (events : List StreamEvent) :
    Ensures (stream.play (ε := ε) events) host fun result _ => result.2.spilledRuns = stream.spilledRuns :=
  play_rule (fun stream' _ => stream'.spilledRuns = stream.spilledRuns)
    (fun call stream' start _ same => (stream'.perform_spilledRuns start call).mono fun _ _ same' => same'.trans same)
    (fun _ _ _ _ same => same) rfl

end SortedStream

namespace Sorter

variable {sorter : Sorter} {format : SpillFormat α} {compare : Comparison α}

/-- How a sorter cuts and stores records. -/
def plan (sorter : Sorter) (format : SpillFormat α) (compare : Comparison α) : RunPlan α :=
  ⟨compare, format, sorter.options.pageSize⟩

/-- The store that a sorter starts with. -/
def store (sorter : Sorter) : SpillStore := .new sorter.options.place sorter.options.bufferSize

theorem openStream_spilledRuns {filling : Filling σ α} {outcome : Filling.Outcome α} {page : List α}
    (ends : outcome.Ends format filling.runs page) :
    (openStream compare filling outcome).spilledRuns = filling.runs.length := by
  cases outcome with
  | memory records =>
    rw [ends.1]
    rfl
  | runs readers =>
    obtain ⟨-, opened, rfl, all⟩ := ends
    change (opened ++ [RunReader.memory page]).length - 1 = _
    rw [List.length_append, List.length_singleton, Nat.add_sub_cancel, all.length_eq]

/-- A stream tells the number of full pages of its source. -/
theorem sortBy_spilledRuns [RecordSource σ α ε] [ErrorText ε] {source : σ} {records : List α} {own : Nat → Prop}
    {host : Host} (sound : host.disk.Sound) (yields : Yields records source own host.disk) :
    Ensures (sorter.sortBy (ε := ε) format compare source) host fun result _ => ∀ stream, result = .ok stream →
      stream.spilledRuns = records.length / sorter.options.pageSize := by
  refine sortBy_rule (fun outcome filling _ => (openStream compare filling outcome).spilledRuns =
    records.length / sorter.options.pageSize) ?_ ?_
  · apply (Filling.run_partitions yields sound sorter.pageSize_pos).mono
    rintro ⟨answer, filling⟩ later ⟨-, partitions⟩ outcome rfl
    exact (openStream_spilledRuns partitions.last).trans partitions.count
  · rintro outcome filling start start' counted -
    exact ((openStream compare filling outcome).skip_spilledRuns start' sorter.options.offset).mono
      fun _ _ same _ => same.trans counted

end Sorter

end SpillSort
