import Mathlib.Data.List.Forall2
import SpillSort.Proofs.Loops
import SpillSort.Proofs.RunFiles
import SpillSort.Proofs.StableOrder

/-! # Pages that make up the source

While a source is read, what it has given so far is in the runs, each a full page that was sorted and
written, and in the page that is not full yet. So at the end the sorted runs and the sorted last page have
all records of the source between them, slice by slice, and sorting the slices again gives what sorting the
source at once gives.
-/

namespace SpillSort

variable {σ α ε : Type}

/-! ## Sources -/

/-- A source gives these records and then its end, whatever else happens on the temporary store meanwhile.
It may have directories of its own there: what it does stays within them, and it relies on nothing else. -/
def Yields [RecordSource σ α ε] : List α → σ → (Nat → Prop) → Disk → Prop
  | [], source, own, disk =>
    (∀ directory, own directory → directory < disk.nextDirectory) ∧
      ∀ host : Host, disk.Within (¬ own ·) host.disk → host.disk.Sound →
        Ensures (RecordSource.next source) host fun result later =>
          (host.disk.Within own later.disk ∧ later.disk.Sound) ∧ result.1 = .ok none
  | record :: records, source, own, disk =>
    (∀ directory, own directory → directory < disk.nextDirectory) ∧
      ∀ host : Host, disk.Within (¬ own ·) host.disk → host.disk.Sound →
        Ensures (RecordSource.next source) host fun result later =>
          (host.disk.Within own later.disk ∧ later.disk.Sound) ∧ result.1 = .ok (some record) ∧
            ∃ own', (∀ directory, own' directory → own directory ∨ host.disk.nextDirectory ≤ directory) ∧
              Yields records result.2 own' later.disk

theorem Yields.owned_lt [RecordSource σ α ε] {records : List α} {source : σ} {own : Nat → Prop} {disk : Disk}
    (yields : Yields records source own disk) {directory : Nat} (owned : own directory) :
    directory < disk.nextDirectory := by
  cases records with
  | nil => exact yields.1 directory owned
  | cons record records => exact yields.1 directory owned

/-- Records held in memory are given whatever happens on the temporary store. -/
theorem yields_script (records : List α) (closeError : Option ε) (disk : Disk) :
    Yields records (⟨records.map .ok, closeError⟩ : Script α ε) (fun _ => False) disk := by
  induction records generalizing disk with
  | nil => exact ⟨nofun, fun host _ sound => ⟨⟨.refl _ _, sound⟩, rfl⟩⟩
  | cons record records ih =>
    refine ⟨nofun, fun host _ sound => ⟨⟨.refl _ _, sound⟩, rfl, fun _ => False, nofun, ?_⟩⟩
    exact ih host.disk

theorem yields_ofRecords (records : List α) (disk : Disk) :
    Yields records (Script.ofRecords records : Script α ε) (fun _ => False) disk :=
  yields_script records none disk

/-- A source gives no more records than some function of it says. -/
def Bounds [RecordSource σ α ε] (left : σ → Nat) : Prop :=
  ∀ (source : σ) (host : Host), Ensures (RecordSource.next source) host fun result _ =>
    ∀ record, result.1 = .ok (some record) → left result.2 < left source

/-! ## Pages -/

@[simp] theorem Page.toList_empty (limit : Nat) : (empty limit : Page α).toList = [] := rfl

@[simp] theorem Page.size_empty (limit : Nat) : (empty limit : Page α).size = 0 := rfl

@[simp] theorem Page.size_offer (page : Page α) (record : α) : (page.offer record).size = page.size + 1 := by
  simp [offer, size]

@[simp] theorem Page.toList_offer (page : Page α) (record : α) :
    (page.offer record).toList = page.toList ++ [record] := by
  simp [offer, toList]

namespace Filling

variable {plan : RunPlan α} {own : Nat → Prop} {disk : Disk}

/-! ## The invariant -/

/-- What has been read is in the sorted runs, page by page, and in the page. -/
structure Cuts (plan : RunPlan α) (own : Nat → Prop) (filling : Filling σ α) (read : List α) (disk : Disk) :
    Prop where
  pages : ∃ pages : List (List α), read = pages.flatten ++ filling.page.toList ∧
    List.Forall₂ (fun handle page => handle.Holds plan.format (plan.compare.stableSort page) disk) filling.runs pages
  inside : ∀ handle ∈ filling.runs, filling.store.directory = some handle.path.directory
  length_eq : read.length = filling.runs.length * plan.pageSize + filling.page.size
  limit_eq : filling.page.limit = plan.pageSize
  room : filling.page.size < plan.pageSize
  ready : filling.store.Ready disk
  sound : disk.Sound
  apart : ∀ directory, filling.store.directory = some directory → ¬ own directory

theorem cuts_start {source : σ} {place : Place} {bufferSize : Option Nat} (positive : 0 < plan.pageSize)
    (sound : disk.Sound) : (start plan source (.new place bufferSize)).Cuts plan own [] disk :=
  ⟨⟨[], rfl, .nil⟩, nofun, (Nat.zero_mul _).symm, rfl, positive, SpillStore.ready_new place bufferSize disk, sound,
    nofun⟩

/-- What the source does within its own directories is not noticed. -/
theorem Cuts.stable {filling : Filling σ α} {read : List α} {after : Disk} {own' : Nat → Prop} {source : σ}
    (cuts : filling.Cuts plan own read disk) (within : disk.Within own after) (sound : after.Sound)
    (since : ∀ directory, own' directory → own directory ∨ disk.nextDirectory ≤ directory) :
    { filling with source }.Cuts plan own' read after := by
  obtain ⟨pages, read_eq, runs⟩ := cuts.pages
  have old : ∀ directory, filling.store.directory = some directory → directory < disk.nextDirectory :=
    fun directory mine => cuts.sound.directory_lt directory (cuts.ready.present directory mine)
  refine ⟨⟨pages, read_eq, ?_⟩, cuts.inside, cuts.length_eq, cuts.limit_eq, cuts.room,
    cuts.ready.stable cuts.sound within cuts.apart, sound, ?_⟩
  · refine ((List.forall₂_and_left _ _).mpr ⟨cuts.inside, runs⟩).imp ?_
    rintro handle page ⟨mine, holds⟩
    exact holds.stable fun node found => within.file_eq cuts.sound found (cuts.apart _ mine)
  · intro directory mine owned
    rcases since directory owned with former | new
    · exact cuts.apart directory mine former
    · exact Nat.not_le.mpr (old directory mine) new

/-! ## Reading the source -/

/-- With a full page, what has been read is whole pages. -/
theorem Cuts.length_of_full {filling : Filling σ α} {read : List α} {record : α}
    (cuts : filling.Cuts plan own read disk) (full : (filling.page.offer record).isFull) :
    (read ++ [record]).length = (filling.runs.length + 1) * plan.pageSize := by
  have room := cuts.room
  simp only [Page.isFull, decide_eq_true_eq, Page.size_offer] at full
  change filling.page.limit ≤ _ at full
  rw [cuts.limit_eq] at full
  rw [List.length_append, List.length_singleton, cuts.length_eq, Nat.succ_mul]
  omega

/-- A full page that was written is one more slice of what has been read. -/
theorem Cuts.spilled {filling : Filling σ α} {read : List α} {record : α} {after : Disk} {handle : SpillHandle}
    {store : SpillStore} (cuts : filling.Cuts plan own read disk)
    (owned : ∀ directory, own directory → directory < disk.nextDirectory)
    (full : (filling.page.offer record).isFull) (within : disk.Within (¬ own ·) after) (sound : after.Sound)
    (wrote : filling.store.Wrote plan.format (plan.compare.stableSort (filling.page.offer record).toList) disk handle
      store after) :
    { filling with store, page := .empty plan.pageSize, runs := filling.runs ++ [handle] }.Cuts plan own
      (read ++ [record]) after := by
  obtain ⟨pages, read_eq, runs⟩ := cuts.pages
  refine ⟨⟨pages ++ [(filling.page.offer record).toList], ?_, ?_⟩, ?_, ?_, rfl, Nat.zero_lt_of_lt cuts.room,
    wrote.ready, sound, ?_⟩
  · simp [read_eq]
  · exact List.rel_append (runs.imp fun _ _ => wrote.still_holds within cuts.sound) (.cons wrote.holds .nil)
  · intro other present
    dsimp only
    rcases List.mem_append.mp present with old | new
    · have mine := cuts.inside other old
      rcases wrote.since with same | ⟨missing, -⟩
      · exact wrote.directory_eq.trans (same.symm.trans mine)
      · rw [missing] at mine
        cases mine
    · rw [List.mem_singleton.mp new]
      exact wrote.directory_eq
  · simp [cuts.length_of_full full]
  · intro directory mine
    obtain rfl : handle.path.directory = directory := Option.some.inj (wrote.directory_eq.symm.trans mine)
    rcases wrote.since with same | ⟨-, new⟩
    · exact cuts.apart _ same
    · exact fun former => Nat.not_le.mpr (owned _ former) new

theorem accept_spec {filling : Filling σ α} {read : List α} {record : α} {host : Host}
    (cuts : filling.Cuts plan own read host.disk)
    (owned : ∀ directory, own directory → directory < host.disk.nextDirectory) :
    Ensures (accept (ε := ε) plan filling record) host fun result later =>
      host.disk.Within (¬ own ·) later.disk ∧
        match result.1 with
        | .error _ => plan.pageSize ∣ (read ++ [record]).length ∧
            ¬ filling.store.Accepts plan.format (read ++ [record]) host.disk
        | .ok () => result.2.Cuts plan own (read ++ [record]) later.disk ∧
            result.2.store.place = filling.store.place ∧ result.2.store.bufferSize = filling.store.bufferSize := by
  obtain ⟨pages, read_eq, runs⟩ := cuts.pages
  refine accept_rule ?_ ?_
  · intro notFull
    refine ⟨.refl _ _, ⟨⟨pages, ?_, runs⟩, cuts.inside, ?_, cuts.limit_eq, ?_, cuts.ready, cuts.sound, cuts.apart⟩, rfl,
      rfl⟩
    · change read ++ [record] = pages.flatten ++ (filling.page.offer record).toList
      rw [Page.toList_offer, read_eq, List.append_assoc]
    · change _ = _ + (filling.page.offer record).size
      rw [List.length_append, cuts.length_eq, Page.size_offer, Nat.add_assoc]
      rfl
    · simp only [Page.isFull, decide_eq_true_eq, Nat.not_le] at notFull
      exact Nat.lt_of_lt_of_eq notFull cuts.limit_eq
  · intro full start same
    rw [← same] at cuts owned ⊢
    apply (SpillStore.write_spec cuts.ready cuts.sound).mono
    rintro ⟨written, store⟩ later ⟨within, sound, outcome⟩
    have within' : start.disk.Within (¬ own ·) later.disk := within.mono cuts.apart
    cases written with
    | error error =>
      refine ⟨within', ⟨_, (cuts.length_of_full full).trans (Nat.mul_comm ..)⟩, fun accepts => outcome ?_⟩
      refine ⟨accepts.place, accepts.buffer, ?_⟩
      intro kept present
      apply accepts.fits
      have among := (Comparison.perm_stableSort ..).mem_iff.mp present
      rw [Page.toList_offer] at among
      rw [read_eq, List.append_assoc]
      exact List.mem_append_right _ among
    | ok handle =>
      exact ⟨within', cuts.spilled owned full within' sound outcome, outcome.place_eq, outcome.bufferSize_eq⟩

/-- A full page that cannot be written ends the reading. -/
theorem accept_refused {plan : RunPlan α} {filling : Filling σ α} {record : α} {host : Host}
    (full : (filling.page.offer record).isFull)
    (refused : ∀ start : Host, start.disk = host.disk →
      Ensures (filling.store.write plan.format (plan.compare.stableSort (filling.page.offer record).toList)) start
        fun result _ => ∃ error, result.1 = .error error) :
    Ensures (accept (ε := ε) plan filling record) host fun result _ => ∃ error, result.1 = .error error := by
  refine accept_rule (fun notFull => absurd full notFull) fun _ start same => ?_
  apply (refused start same).mono
  rintro ⟨answer, store⟩ later ⟨error, rfl⟩
  exact ⟨_, rfl⟩

/-- What the steps of a source and every record taken preserve holds in the end, of all records. -/
theorem readAll_yields [RecordSource σ α ε] (invariant : (Nat → Prop) → Filling σ α → List α → Disk → Prop)
    (failed : List α → SortError ε → Prop)
    (sound : ∀ {own filling read disk}, invariant own filling read disk → disk.Sound)
    (stable : ∀ {own own' : Nat → Prop} {filling read disk after source}, invariant own filling read disk →
      disk.Within own after → after.Sound → (∀ directory, own' directory → own directory ∨ disk.nextDirectory ≤ directory) →
        invariant own' { filling with source } read after)
    (taken : ∀ {own filling read record} {host : Host}, invariant own filling read host.disk →
      (∀ directory, own directory → directory < host.disk.nextDirectory) →
        Ensures (accept plan filling record) host fun result later => host.disk.Within (¬ own ·) later.disk ∧
          match result.1 with
          | .error error => failed (read ++ [record]) error
          | .ok () => invariant own result.2 (read ++ [record]) later.disk)
    {records read : List α} {filling : Filling σ α} {own : Nat → Prop} {disk : Disk} {host : Host}
    (yields : Yields records filling.source own disk) (within : disk.Within (¬ own ·) host.disk)
    (holds : invariant own filling read host.disk) :
    Ensures (modifyGet (readAll plan filling)) host fun result later =>
      match result.1 with
      | .error error => ∃ full, full <+: read ++ records ∧ full ≠ [] ∧ failed full error
      | .ok () => ∃ own', invariant own' result.2 (read ++ records) later.disk := by
  induction records generalizing read filling own disk host with
  | nil =>
    rw [readAll_eq, Ensures.bind_iff]
    apply (yields.2 host within (sound holds)).mono
    rintro ⟨answer, source⟩ later ⟨⟨within', sound'⟩, rfl⟩
    refine ⟨own, ?_⟩
    rw [List.append_nil]
    exact stable holds within' sound' fun _ => .inl
  | cons record records ih =>
    rw [readAll_eq, Ensures.bind_iff]
    apply (yields.2 host within (sound holds)).mono
    rintro ⟨answer, source⟩ later ⟨⟨within', sound'⟩, rfl, own', since, rest⟩
    have holds' : invariant own' { filling with source } read later.disk := stable holds within' sound' since
    have split_eq : read ++ record :: records = (read ++ [record]) ++ records := List.append_cons ..
    dsimp only
    rw [split_eq, Ensures.bind_iff]
    apply ((taken holds' fun _ => rest.owned_lt).and (accept_source plan { filling with source } record later)).mono
    rintro ⟨accepted, fuller⟩ last ⟨⟨within'', outcome⟩, same⟩
    cases accepted with
    | error error => exact ⟨read ++ [record], List.prefix_append _ _, by simp, outcome⟩
    | ok =>
      obtain rfl : fuller.source = source := same
      exact ih rest within'' outcome

/-- Reading a source cuts all its records, unless a page cannot be written. -/
theorem readAll_spec [RecordSource σ α ε] {records read : List α} {filling : Filling σ α} {own : Nat → Prop}
    {disk : Disk} {host : Host} (yields : Yields records filling.source own disk)
    (within : disk.Within (¬ own ·) host.disk) (cuts : filling.Cuts plan own read host.disk) :
    Ensures (modifyGet (readAll plan filling)) host fun result later =>
      match result.1 with
      | .error _ => ∃ full, full <+: read ++ records ∧ full ≠ [] ∧ plan.pageSize ∣ full.length ∧
          ¬ filling.store.Accepts plan.format full host.disk
      | .ok () => ∃ own', result.2.Cuts plan own' (read ++ records) later.disk := by
  refine (readAll_yields (fun own filling' read disk => filling'.Cuts plan own read disk ∧
      filling'.store.place = filling.store.place ∧ filling'.store.bufferSize = filling.store.bufferSize ∧
        disk.refused = host.disk.refused)
    (fun full _ => plan.pageSize ∣ full.length ∧ ¬ filling.store.Accepts plan.format full host.disk)
    (fun holds => holds.1.sound) ?_ ?_ yields within ⟨cuts, rfl, rfl, rfl⟩).mono ?_
  · rintro own own' filling' read disk after source ⟨cuts, place_eq, bufferSize_eq, refused_eq⟩ within sound since
    exact ⟨cuts.stable within sound since, place_eq, bufferSize_eq, within.refused_eq.trans refused_eq⟩
  · rintro own filling' read record start ⟨cuts, place_eq, bufferSize_eq, refused_eq⟩ owned
    apply (accept_spec cuts owned).mono
    rintro ⟨accepted, fuller⟩ last ⟨within, outcome⟩
    refine ⟨within, ?_⟩
    cases accepted with
    | error error =>
      exact ⟨outcome.1, fun accepts => outcome.2 (accepts.of_eq place_eq bufferSize_eq refused_eq)⟩
    | ok =>
      obtain ⟨cuts', place_eq', bufferSize_eq'⟩ := outcome
      exact ⟨cuts', place_eq'.trans place_eq, bufferSize_eq'.trans bufferSize_eq, within.refused_eq.trans refused_eq⟩
  · rintro ⟨answer, filled⟩ later outcome
    cases answer with
    | error error => exact outcome
    | ok =>
      obtain ⟨own', holds⟩ := outcome
      exact ⟨own', holds.1⟩

/-- Where a page has room for all that can come nothing is spilled, and reading fails only if the source does. -/
theorem readAll_few [RecordSource σ α ε] {left : σ → Nat} (bounded : Bounds (ε := ε) (α := α) left) (kept : Host → Prop)
    (keeps : ∀ (source : σ) host, kept host → Ensures (RecordSource.next (ε := ε) source) host fun _ later => kept later)
    {source : σ} (few : left source < plan.pageSize) {store : SpillStore} {host : Host} (holds : kept host) :
    Ensures (modifyGet (readAll (ε := ε) plan (start plan source store))) host fun result later =>
      (∀ error, result.1 = .error error → ∃ fault, error = .input fault) ∧
        result.2.store = store ∧ kept later := by
  have roomy : (start plan source store).page.size + left source < plan.pageSize := by
    rw [start, Page.size_empty]
    omega
  refine readAll_rule (fun filling later => filling.page.size + left filling.source < filling.page.limit ∧
    filling.store = store ∧ kept later) ?_ ⟨roomy, rfl, holds⟩
  rintro filling begin ⟨few, same, holds⟩
  apply ((bounded filling.source begin).and (keeps filling.source begin holds)).mono
  rintro ⟨answer, source⟩ later ⟨fewer, holds'⟩
  cases answer with
  | error error =>
    refine ⟨?_, same, holds'⟩
    rintro _ ⟨⟩
    exact ⟨error, rfl⟩
  | ok given =>
    cases given with
    | none =>
      refine ⟨?_, same, holds'⟩
      rintro _ ⟨⟩
    | some record =>
      have fewer : left source < left filling.source := fewer record rfl
      have roomy : (filling.page.offer record).size + left source < filling.page.limit := by
        rw [Page.size_offer]
        omega
      refine accept_rule (fun _ => ⟨roomy, same, holds'⟩) fun full => ?_
      have reached : filling.page.limit ≤ (filling.page.offer record).size := of_decide_eq_true full
      omega

/-! ## Opening the runs -/

/-- Opening a run only looks at it. -/
theorem openReader_disk (format : SpillFormat α) (store : SpillStore) (handle : SpillHandle) (host : Host) :
    Ensures (store.openReader format handle) host fun _ later => later = host := by
  unfold SpillStore.openReader
  rw [Ensures.bind_iff, Ensures.get_iff]
  dsimp only
  split
  · rfl
  · split <;> rfl
  · split
    · rfl
    · split
      · rfl
      · split <;> rfl

theorem openRuns_disk (format : SpillFormat α) (store : SpillStore) (handles : List SpillHandle) (host : Host) :
    Ensures (openRuns format store handles) host fun _ later => later = host := by
  induction handles with
  | nil => exact rfl
  | cons handle handles ih =>
    simp only [openRuns]
    rw [Ensures.bind_iff]
    apply (openReader_disk format store handle host).mono
    rintro answer later rfl
    cases answer with
    | error error => rfl
    | ok reader => exact ih

/-- The last page is all there is, or the runs are opened and the last page comes after them. -/
theorem conclude_rule {filling : Filling σ α} {host : Host} {post : Except (SortError ε) (Outcome α) → Host → Prop}
    (few : filling.runs = [] → ∀ start : Host, start.disk = host.disk →
      post (.ok (.memory (plan.compare.stableSort filling.page.toList))) start)
    (many : filling.runs ≠ [] → ∀ start : Host, start.disk = host.disk →
      Ensures (openRuns plan.format filling.store filling.runs) start fun answer later =>
        match answer with
        | .error error => post (.error (.spillRead error)) later
        | .ok readers => post (.ok (.runs (readers ++ [.memory (plan.compare.stableSort filling.page.toList)]))) later) :
    Ensures (filling.conclude plan) host post := by
  simp only [conclude]
  split
  · next none_spilled =>
    rw [Ensures.bind_iff]
    exact Ensures.report fun start same => few none_spilled start same
  · next some_spilled =>
    rw [Ensures.bind_iff]
    refine Ensures.report fun start same => ?_
    rw [Ensures.bind_iff]
    apply (many some_spilled start same).mono
    intro answer later outcome
    cases answer with
    | error error => exact outcome
    | ok readers => exact outcome

theorem conclude_disk (plan : RunPlan α) (filling : Filling σ α) (host : Host) :
    Ensures (filling.conclude (ε := ε) plan) host fun _ later => later.disk = host.disk := by
  refine conclude_rule (fun _ _ same => same) fun _ start same => ?_
  apply (openRuns_disk plan.format filling.store filling.runs start).mono
  rintro answer later rfl
  cases answer with
  | error error => exact same
  | ok readers => exact same

theorem openRuns_spec {format : SpillFormat α} {store : SpillStore} {handles : List SpillHandle}
    {lanes : List (List α)} {host : Host} (cut : Prop) (own : Nat → Prop)
    (holds : List.Forall₂ (fun handle lane => handle.Holds format lane host.disk) handles lanes)
    (inside : ∀ handle ∈ handles, own handle.path.directory) (sound : host.disk.Sound)
    (restores : format.Restores) :
    Ensures (openRuns format store handles) host fun result later =>
      later = host ∧ ∃ readers, result = .ok readers ∧
        List.Forall₂ (fun reader lane => RunReader.Tracks cut own reader lane host.disk) readers lanes := by
  induction holds with
  | nil => exact ⟨rfl, [], rfl, .nil⟩
  | @cons handle lane handles lanes first rest ih =>
    simp only [openRuns]
    rw [Ensures.bind_iff]
    apply (SpillStore.openReader_spec cut first sound restores (inside handle List.mem_cons_self)).mono
    rintro answer later ⟨rfl, reader, rfl, tracks⟩
    dsimp only
    rw [Ensures.bind_iff]
    apply (ih fun other present => inside other (List.mem_cons_of_mem _ present)).mono
    rintro answer last ⟨rfl, readers, rfl, others⟩
    have tracks' : reader.disposeOnExhaust.Tracks cut own lane last.disk :=
      ⟨tracks.owned, tracks.restores, tracks.remaining_eq, tracks.frames⟩
    exact ⟨rfl, _, rfl, .cons tracks' others⟩

/-- Filling ended with these records, as one sorted page or as sorted runs that make them up. -/
def Outcome.Holds (cut : Prop) (own : Nat → Prop) (compare : Comparison α) (records : List α) (disk : Disk) :
    Outcome α → Prop
  | .memory page => page = compare.stableSort records
  | .runs readers => ∃ lanes : List (List α),
    List.Forall₂ (fun reader lane => RunReader.Tracks cut own reader lane disk) readers lanes ∧
      (∀ lane ∈ lanes, compare.Ordered lane) ∧ compare.stableSort lanes.flatten = compare.stableSort records

theorem conclude_spec [Std.TransCmp plan.compare] {filling : Filling σ α} {records : List α} {host : Host}
    (cut : Prop) (cuts : filling.Cuts plan own records host.disk) (restores : plan.format.Restores) :
    Ensures (filling.conclude (ε := ε) plan) host fun result later =>
      later.disk = host.disk ∧ ∃ outcome, result = .ok outcome ∧
        outcome.Holds cut (filling.store.directory = some ·) plan.compare records later.disk := by
  obtain ⟨pages, records_eq, runs⟩ := cuts.pages
  refine conclude_rule ?_ ?_
  · intro none_spilled start same
    refine ⟨same, _, rfl, ?_⟩
    rw [none_spilled] at runs
    cases runs
    rw [records_eq]
    rfl
  · intro _ start same
    rw [← same] at runs ⊢
    refine (openRuns_spec cut (filling.store.directory = some ·) (List.forall₂_map_right_iff.mpr runs)
      cuts.inside (same ▸ cuts.sound) restores).mono ?_
    rintro answer later ⟨rfl, readers, rfl, tracks⟩
    refine ⟨rfl, _, rfl, (pages ++ [filling.page.toList]).map plan.compare.stableSort, ?_, ?_, ?_⟩
    · rw [List.map_append]
      exact List.rel_append tracks (.cons rfl .nil)
    · intro lane present
      obtain ⟨page, -, rfl⟩ := List.mem_map.mp present
      exact Comparison.ordered_stableSort page
    · rw [Comparison.stableSort_flatten_stableSort, records_eq, List.flatten_append, List.flatten_singleton]

/-- Filling from a source ends with all its records, unless a page cannot be written. -/
theorem run_spec [RecordSource σ α ε] [Std.TransCmp plan.compare] {records : List α} {source : σ} {place : Place}
    {bufferSize : Option Nat} {host : Host} (cut : Prop) (yields : Yields records source own host.disk)
    (sound : host.disk.Sound) (positive : 0 < plan.pageSize) (restores : plan.format.Restores) :
    Ensures (run plan source (.new place bufferSize)) host fun result later =>
      match result.1 with
      | .error _ => ∃ full, full <+: records ∧ full ≠ [] ∧ plan.pageSize ∣ full.length ∧
          ¬ (SpillStore.new place bufferSize).Accepts plan.format full host.disk
      | .ok outcome => outcome.Holds cut (result.2.store.directory = some ·) plan.compare records later.disk := by
  have cuts : (start plan source (.new place bufferSize)).Cuts plan own [] host.disk := cuts_start positive sound
  simp only [run]
  rw [Ensures.bind_iff]
  apply (readAll_spec yields (.refl _ _) cuts).mono
  rintro ⟨answer, filling⟩ later outcome
  cases answer with
  | error error => exact outcome
  | ok =>
    obtain ⟨own', cuts'⟩ := outcome
    dsimp only
    rw [Ensures.bind_iff]
    apply (conclude_spec cut cuts' restores).mono
    rintro answer last ⟨-, outcome, rfl, holds⟩
    exact holds

/-- Where filling has come to its end, all that was read is still in the runs and in the page. -/
theorem run_cuts [RecordSource σ α ε] {records : List α} {source : σ} {place : Place} {bufferSize : Option Nat}
    {host : Host} (yields : Yields records source own host.disk) (sound : host.disk.Sound)
    (positive : 0 < plan.pageSize) :
    Ensures (run (ε := ε) plan source (.new place bufferSize)) host fun result later => ∀ outcome,
      result.1 = .ok outcome → ∃ own', result.2.Cuts plan own' records later.disk := by
  have cuts : (start plan source (.new place bufferSize)).Cuts plan own [] host.disk := cuts_start positive sound
  simp only [run]
  rw [Ensures.bind_iff]
  apply (readAll_spec yields (.refl _ _) cuts).mono
  rintro ⟨answer, filling⟩ later read
  cases answer with
  | error error => rintro other ⟨⟩
  | ok =>
    obtain ⟨own', cuts'⟩ := read
    dsimp only
    rw [Ensures.bind_iff]
    apply (filling.conclude_disk plan later).mono
    intro answer last same outcome _
    rw [← same] at cuts'
    exact ⟨own', cuts'⟩

end Filling

end SpillSort
