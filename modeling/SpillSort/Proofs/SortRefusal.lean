import SpillSort.Proofs.Answers
import SpillSort.Proofs.RunPartition

/-! # Which error a sort tells

Where nothing else keeps records from being written, a sort fails for one of two reasons. A record of a full page
cannot be stored: then the first such page counts, and in it the first such record in sorted order, and the source
has been read just to the end of that page. Or a read fails: that is told if it comes before the end of a page that
cannot be written, and nothing behind it is read. Records of the last page are not asked how they are stored.
-/

namespace SpillSort

variable {σ α ε : Type}

/-! ## Refused records -/

/-- Why a record cannot be stored: the format refuses it, or its payload is too long for a frame. -/
def SpillFormat.refusal? (format : SpillFormat α) (record : α) : Option String :=
  match format.encode record with
  | .error reason => some reason
  | .ok payload =>
    if payload.length < 2 ^ 32 then none else some s!"record of {payload.length} bytes does not fit in a frame"

theorem SpillFormat.fits_of_refusal?_eq_none {format : SpillFormat α} {record : α}
    (stored : format.refusal? record = none) : format.Fits record := by
  unfold refusal? at stored
  split at stored
  · cases stored
  · next payload encoded =>
    split at stored
    · next small => exact ⟨payload, encoded, small⟩
    · cases stored

namespace Frame

theorem encode_eq_error {format : SpillFormat α} {record : α} {reason : String}
    (refused : format.refusal? record = some reason) : encode format record = .error (.encode reason) := by
  cases encoded : format.encode record with
  | error refusal =>
    simp only [SpillFormat.refusal?, encoded, Option.some.injEq] at refused
    simp only [encode, encoded, refused]
  | ok payload =>
    by_cases small : payload.length < 2 ^ 32
    · simp only [SpillFormat.refusal?, encoded, small, if_true] at refused
      cases refused
    · simp only [SpillFormat.refusal?, encoded, small, if_false, Option.some.injEq] at refused
      simp only [encode, encoded, small, if_false, refused]

/-- The frames of some records, or the refusal of the first that is refused. -/
theorem encodeAll_cases (format : SpillFormat α) (records : List α) :
    match records.findSome? format.refusal? with
    | some reason => encodeAll format records = .error (.encode reason)
    | none => ∃ frames, encodeAll format records = .ok frames := by
  induction records with
  | nil => exact ⟨[], rfl⟩
  | cons record records ih =>
    rw [List.findSome?_cons]
    cases first : format.refusal? record with
    | some reason =>
      dsimp only
      rw [encodeAll, encode_eq_error first]
    | none =>
      obtain ⟨frame, encoded⟩ := encode_ok_of_fits (SpillFormat.fits_of_refusal?_eq_none first)
      dsimp only
      rw [encodeAll, encoded]
      cases others : records.findSome? format.refusal? with
      | some reason =>
        rw [others] at ih
        dsimp only at ih ⊢
        rw [ih]
        rfl
      | none =>
        rw [others] at ih
        obtain ⟨frames, encoded'⟩ := ih
        exact ⟨frame ++ frames, by rw [encoded']; rfl⟩

end Frame

namespace SpillStore

/-- Nothing but the records can keep the store from writing. -/
structure Works (store : SpillStore) (disk : Disk) : Prop where
  place : disk.refused.lookup store.place = none
  buffer : store.bufferSize.getD BufferedFile.standardCapacity ≤ BufferedFile.capacityLimit

theorem Works.of_eq {store store' : SpillStore} {disk disk' : Disk} (works : store.Works disk)
    (place_eq : store'.place = store.place) (bufferSize_eq : store'.bufferSize = store.bufferSize)
    (refused_eq : disk'.refused = disk.refused) : store'.Works disk' := by
  refine ⟨?_, ?_⟩
  · rw [place_eq, refused_eq]
    exact works.place
  · rw [bufferSize_eq]
    exact works.buffer

/-- A working store writes records unless one of them is refused. -/
theorem Works.write {store : SpillStore} {host : Host} (works : store.Works host.disk) (ready : store.Ready host.disk)
    (sound : host.disk.Sound) (format : SpillFormat α) (records : List α) :
    Ensures (store.write format records) host fun result _ =>
      match records.findSome? format.refusal? with
      | some reason => result.1 = .error (.encode reason)
      | none => ∃ handle, result.1 = .ok handle := by
  have allowed : store.barred? host.disk = none := by
    unfold barred?
    split
    · rfl
    · exact works.place
  have dumped : store.dump format records = Frame.encodeAll format records := if_pos works.buffer
  have frames := Frame.encodeAll_cases format records
  apply (write_refusal ready sound format records).mono
  rintro ⟨answer, store'⟩ later outcome
  split at frames
  · simpa only [refusal?, allowed, dumped, frames] using outcome
  · obtain ⟨bytes, encoded⟩ := frames
    simpa only [refusal?, allowed, dumped, encoded] using outcome

end SpillStore

/-! ## Reading a script -/

namespace Filling

variable {plan : RunPlan α}

/-- The refusal of the first record in sorted order that is refused in one of the full pages, with the page. -/
def pageRefusal? (plan : RunPlan α) (records : List α) (index : Nat) : Option (Nat × String) :=
  ((plan.compare.stableSort (pageOf plan.pageSize records index)).findSome? plan.format.refusal?).map (index, ·)

/-- The first full page in which a record is refused, and the refusal. -/
def firstRefusal? (plan : RunPlan α) (records : List α) : Option (Nat × String) :=
  (List.range (records.length / plan.pageSize)).findSome? (pageRefusal? plan records)

/-- A record is taken unless it fills a page with a refused record. -/
theorem accept_works {filling : Filling σ α} {own : Nat → Prop} {read : List α} {record : α} {host : Host}
    (cuts : filling.Cuts plan own read host.disk) (works : filling.store.Works host.disk) :
    Ensures (accept (ε := ε) plan filling record) host fun result _ =>
      if (filling.page.offer record).isFull then
        match (plan.compare.stableSort (filling.page.offer record).toList).findSome? plan.format.refusal? with
        | some reason => result.1 = .error (.spillWrite (.encode reason))
        | none => result.1 = .ok () ∧ ∃ handle, result.2.runs = filling.runs ++ [handle]
      else result.1 = .ok () ∧ result.2.runs = filling.runs := by
  refine accept_rule ?_ ?_
  · intro notFull
    simp only [if_neg notFull]
    exact ⟨trivial, trivial⟩
  · intro full start same
    rw [← same] at cuts works
    have wrote := works.write cuts.ready cuts.sound plan.format
      (plan.compare.stableSort (filling.page.offer record).toList)
    simp only [if_pos full]
    cases refused : (plan.compare.stableSort (filling.page.offer record).toList).findSome? plan.format.refusal? with
    | some reason =>
      rw [refused] at wrote
      apply wrote.mono
      rintro ⟨written, store⟩ later rfl
      rfl
    | none =>
      rw [refused] at wrote
      apply wrote.mono
      rintro ⟨written, store⟩ later ⟨handle, rfl⟩
      exact ⟨trivial, handle, rfl⟩

/-- The first of some further full pages that holds a refused record. -/
def nextRefusal? (plan : RunPlan α) (records : List α) (index : Nat) : Option (Nat × String) :=
  (List.range' index (records.length / plan.pageSize - index)).findSome? (pageRefusal? plan records)

theorem firstRefusal?_eq (plan : RunPlan α) (records : List α) : firstRefusal? plan records = nextRefusal? plan records 0 := by
  rw [firstRefusal?, nextRefusal?, Nat.sub_zero, List.range_eq_range']

theorem nextRefusal?_of_le {records : List α} {index : Nat} (last : records.length / plan.pageSize ≤ index) :
    nextRefusal? plan records index = none := by
  rw [nextRefusal?, Nat.sub_eq_zero_of_le last, List.range'_zero, List.findSome?_nil]

theorem nextRefusal?_of_lt {records : List α} {index : Nat} (more : index < records.length / plan.pageSize) :
    nextRefusal? plan records index = (pageRefusal? plan records index).or (nextRefusal? plan records (index + 1)) := by
  obtain ⟨count, count_eq⟩ : ∃ count, records.length / plan.pageSize - index = count + 1 :=
    ⟨records.length / plan.pageSize - index - 1, by omega⟩
  have rest : records.length / plan.pageSize - (index + 1) = count := by omega
  rw [nextRefusal?, nextRefusal?, count_eq, rest, List.range'_succ, List.findSome?_cons]
  cases pageRefusal? plan records index <;> rfl

/-- A script is being read: what it has given is in the runs and in the page. -/
structure Partway (plan : RunPlan α) (script : Script α ε) (filling : Filling (Script α ε) α) (read : List α)
    (disk : Disk) : Prop where
  source_eq : filling.source = script
  cuts : filling.Cuts plan (fun _ => False) read disk
  numbered : filling.Numbered plan read disk

theorem partway_start (positive : 0 < plan.pageSize) (script : Script α ε) (place : Place) (bufferSize : Option Nat)
    {disk : Disk} (sound : disk.Sound) : (start plan script (.new place bufferSize)).Partway plan script [] disk :=
  ⟨rfl, cuts_start positive sound, numbered_start plan script place bufferSize disk⟩

section

variable {filling : Filling (Script α ε) α} {record : α} {reads : List (Except ε α)} {closeError : Option ε}
  {read : List α} {host : Host}

/-- Reading on does not touch the runs and the page. -/
theorem Partway.fed {script : Script α ε} {disk : Disk} (partway : filling.Partway plan script read disk)
    (source : Script α ε) : { filling with source }.Partway plan source read disk := by
  obtain ⟨-, cuts, numbered⟩ := partway
  exact ⟨rfl, ⟨cuts.pages, cuts.inside, cuts.length_eq, cuts.limit_eq, cuts.room, cuts.ready, cuts.sound, cuts.apart⟩,
    ⟨numbered.runs, numbered.page_eq, numbered.nextId_eq, numbered.names, numbered.fresh⟩⟩

/-- A page that gets full is the next of the full pages of all records. -/
theorem Partway.pageOf_eq {script : Script α ε} {disk : Disk} (partway : filling.Partway plan script read disk)
    (full : (filling.page.offer record).isFull) (later : List α) :
    pageOf plan.pageSize (read ++ [record] ++ later) filling.runs.length = (filling.page.offer record).toList ∧
      filling.runs.length < (read ++ [record] ++ later).length / plan.pageSize := by
  have length_eq := partway.cuts.length_of_full full
  constructor
  · rw [pageOf_append (Nat.le_of_eq length_eq.symm), partway.numbered.pageOf_eq partway.cuts full]
  · rw [Nat.lt_iff_add_one_le, Nat.le_div_iff_mul_le (Nat.zero_lt_of_lt partway.cuts.room), ← length_eq]
    exact (List.prefix_append (read ++ [record]) later).length_le

theorem Partway.accept {script : Script α ε} (partway : filling.Partway plan script read host.disk) :
    Ensures (accept (ε := ε) plan filling record) host fun result later => result.2.source = script ∧
      (result.1 = .ok () → result.2.Partway plan script (read ++ [record]) later.disk ∧
        (filling.store.Works host.disk → result.2.store.Works later.disk)) := by
  apply ((accept_spec partway.cuts nofun).and ((accept_numbered partway.numbered partway.cuts).and
    (accept_source plan filling record host))).mono
  rintro ⟨accepted, fuller⟩ later ⟨⟨within, spec⟩, following, same⟩
  refine ⟨same.trans partway.source_eq, ?_⟩
  rintro rfl
  exact ⟨⟨same.trans partway.source_eq, spec.1, following rfl⟩, fun works =>
    works.of_eq spec.2.1 spec.2.2 within.refused_eq⟩

/-- A record that a script gives is taken, and then the rest is read. -/
theorem readAll_given (source_eq : filling.source = ⟨.ok record :: reads, closeError⟩) :
    modifyGet (readAll plan filling) = (do
      let (accepted, fuller) ← Filling.accept plan { filling with source := ⟨reads, closeError⟩ } record
      match accepted with
      | .error error => return (.error error, fuller)
      | .ok () => modifyGet (readAll plan fuller) :
        HostM (Except (SortError ε) Unit × Filling (Script α ε) α)) := by
  rw [readAll_eq, source_eq]
  rfl

/-- Reading a script ends at the first page that holds a refused record, or at the first failing read. -/
theorem readAll_script {whole : List (Except ε α)} {all : List α} (left : whole.drop read.length = reads)
    (all_eq : all = read ++ goods reads) (partway : filling.Partway plan ⟨reads, closeError⟩ read host.disk)
    (works : filling.store.Works host.disk) :
    Ensures (modifyGet (readAll plan filling)) host fun result _ =>
      match nextRefusal? plan all filling.runs.length with
      | some (index, reason) => result.1 = .error (.spillWrite (.encode reason)) ∧
          result.2.source = ⟨whole.drop ((index + 1) * plan.pageSize), closeError⟩
      | none =>
        match firstError? reads with
        | some error => result.1 = .error (.input error) ∧ result.2.source = ⟨whole.drop (all.length + 1), closeError⟩
        | none => result.1 = .ok () ∧ result.2.source = ⟨[], closeError⟩ := by
  -- The induction is on the reads to come. That these are what `whole` has behind the records read is carried along,
  -- and at the end of a refused page it tells how far the script was read.
  induction reads generalizing filling read host with
  | nil =>
    obtain rfl : all = read := all_eq.trans (List.append_nil _)
    rw [nextRefusal?_of_le (Nat.le_of_eq partway.cuts.length_runs.symm), readAll_eq, partway.source_eq,
      Ensures.bind_iff]
    exact ⟨rfl, rfl⟩
  | cons answer reads ih =>
    have further : whole.drop (read.length + 1) = reads := by rw [← List.tail_drop, left, List.tail_cons]
    cases answer with
    | error error =>
      obtain rfl : all = read := all_eq.trans (List.append_nil _)
      rw [nextRefusal?_of_le (Nat.le_of_eq partway.cuts.length_runs.symm), readAll_eq, partway.source_eq,
        Ensures.bind_iff]
      exact ⟨rfl, congrArg (Script.mk · closeError) further.symm⟩
    | ok record =>
      have all_eq' : all = read ++ [record] ++ goods reads := all_eq.trans (List.append_cons ..)
      have left' : whole.drop (read ++ [record]).length = reads := by
        rw [List.length_append, List.length_singleton, further]
      have fed := partway.fed ⟨reads, closeError⟩
      rw [readAll_given partway.source_eq, Ensures.bind_iff]
      apply ((accept_works fed.cuts works).and fed.accept).mono
      rintro ⟨accepted, fuller⟩ later ⟨outcome, source_eq, following⟩
      have onward (taken : accepted = .ok ()) := by
        subst taken
        exact ih left' all_eq' (following rfl).1 ((following rfl).2 works)
      by_cases full : (filling.page.offer record).isFull
      · rw [if_pos full] at outcome
        obtain ⟨page_eq, more⟩ := partway.pageOf_eq full (goods reads)
        rw [← all_eq'] at page_eq more
        rw [nextRefusal?_of_lt more, pageRefusal?, page_eq]
        cases refused : (plan.compare.stableSort (filling.page.offer record).toList).findSome? plan.format.refusal? with
        | some reason =>
          rw [refused] at outcome
          subst outcome
          refine ⟨rfl, ?_⟩
          rw [← partway.cuts.length_of_full full, left']
          exact source_eq
        | none =>
          rw [refused] at outcome
          obtain ⟨rfl, handle, runs_eq⟩ := outcome
          have count_eq : fuller.runs.length = filling.runs.length + 1 := by
            rw [runs_eq, List.length_append, List.length_singleton]
          have rest := onward rfl
          rw [count_eq] at rest
          exact rest
      · rw [if_neg full] at outcome
        obtain ⟨rfl, runs_eq⟩ := outcome
        have rest := onward rfl
        rw [runs_eq] at rest
        exact rest

/-- Reading a script from its first read on. -/
theorem readAll_whole {script : Script α ε} {store : SpillStore}
    (partway : (start plan script store).Partway plan script [] host.disk) (works : store.Works host.disk) :
    Ensures (modifyGet (readAll plan (start plan script store))) host fun result _ =>
      match firstRefusal? plan (goods script.reads) with
      | some (index, reason) => result.1 = .error (.spillWrite (.encode reason)) ∧
          result.2.source = ⟨script.reads.drop ((index + 1) * plan.pageSize), script.closeError⟩
      | none =>
        match firstError? script.reads with
        | some error => result.1 = .error (.input error) ∧
            result.2.source = ⟨script.reads.drop ((goods script.reads).length + 1), script.closeError⟩
        | none => result.1 = .ok () ∧ result.2.source = ⟨[], script.closeError⟩ := by
  rw [firstRefusal?_eq]
  exact readAll_script rfl rfl partway works

end

/-- If no full page holds a refused record, all that is spilled can be stored. -/
theorem fits_of_firstRefusal?_eq_none {records : List α} (calm : firstRefusal? plan records = none) :
    ∀ record ∈ records.take (records.length / plan.pageSize * plan.pageSize), plan.format.Fits record := by
  intro record present
  obtain ⟨index, known, among⟩ := mem_take_iff.mp present
  apply SpillFormat.fits_of_refusal?_eq_none
  have page := List.findSome?_eq_none_iff.mp calm index (List.mem_range.mpr known)
  have stored := List.findSome?_eq_none_iff.mp (Option.map_eq_none_iff.mp page)
  exact stored record ((Comparison.perm_stableSort plan.compare _).mem_iff.mpr among)

/-! ## What is encoded -/

end Filling

theorem Frame.encodeAll_congr {format format' : SpillFormat α} {records : List α}
    (alike : ∀ record ∈ records, format'.encode record = format.encode record) :
    encodeAll format' records = encodeAll format records := by
  induction records with
  | nil => rfl
  | cons record records ih =>
    obtain ⟨first, rest⟩ := List.forall_mem_cons.mp alike
    rw [encodeAll, encodeAll, ih rest, encode, encode, first]

theorem SpillStore.write_congr {format format' : SpillFormat α} {records : List α} (store : SpillStore)
    (alike : ∀ record ∈ records, format'.encode record = format.encode record) :
    store.write format' records = store.write format records := by
  have dumped (store : SpillStore) : store.dump format' records = store.dump format records := by
    rw [dump, dump, Frame.encodeAll_congr alike]
  simp only [write, dumped]

namespace Filling

variable {plan : RunPlan α}

/-- A record is taken alike under two formats, if those store the records of the page alike where it gets full. -/
theorem accept_congr {format' : SpillFormat α} {filling : Filling σ α} {record : α}
    (alike : (filling.page.offer record).isFull →
      ∀ stored ∈ (filling.page.offer record).toList, format'.encode stored = plan.format.encode stored) :
    accept (ε := ε) { plan with format := format' } filling record = accept plan filling record := by
  simp only [accept]
  split
  · next full =>
    have alike' : ∀ stored ∈ ((filling.page.offer record).sort plan.compare).toList,
        format'.encode stored = plan.format.encode stored := fun stored present =>
      alike full stored ((Comparison.perm_stableSort plan.compare _).mem_iff.mp present)
    simp only [spillPage, SpillStore.write_congr _ alike']
  · rfl

/-- Reading a script does the same under two formats that store the records of the full pages alike. -/
theorem readAll_congr {format' : SpillFormat α} {closeError : Option ε} {reads : List (Except ε α)}
    {all read : List α} {filling : Filling (Script α ε) α} {host : Host} (all_eq : all = read ++ goods reads)
    (partway : filling.Partway plan ⟨reads, closeError⟩ read host.disk)
    (alike : ∀ stored ∈ all.take (all.length / plan.pageSize * plan.pageSize),
      format'.encode stored = plan.format.encode stored) :
    readAll { plan with format := format' } filling host = readAll plan filling host := by
  induction reads generalizing filling read host with
  | nil =>
    unfold readAll
    rw [partway.source_eq]
    rfl
  | cons answer reads ih =>
    cases answer with
    | error error =>
      unfold readAll
      rw [partway.source_eq]
      rfl
    | ok record =>
      have all_eq' : all = read ++ [record] ++ goods reads := all_eq.trans (List.append_cons ..)
      let after : Script α ε := ⟨reads, closeError⟩
      have fed := partway.fed after
      have same : accept (ε := ε) { plan with format := format' } { filling with source := after } record =
          accept plan { filling with source := after } record := by
        refine accept_congr fun full stored present => alike stored ?_
        obtain ⟨page_eq, more⟩ := partway.pageOf_eq full (goods reads)
        rw [← all_eq'] at page_eq more
        exact mem_take_iff.mpr ⟨_, more, page_eq ▸ present⟩
      change (modifyGet (readAll _ filling) : HostM _).run host = (modifyGet (readAll plan filling) : HostM _).run host
      rw [readAll_given partway.source_eq, readAll_given partway.source_eq, same, StateT.run_bind, StateT.run_bind]
      have following : Ensures (accept (ε := ε) plan { filling with source := after } record) host _ := fed.accept
      cases ran : (accept (ε := ε) plan { filling with source := after } record).run host with
      | mk result later =>
        obtain ⟨accepted, fuller⟩ := result
        cases accepted with
        | error error => rfl
        | ok => exact ih all_eq' ((following.of_run ran).2 rfl).1

end Filling

/-! ## The whole sort -/

namespace Sorter

variable {sorter : Sorter} {format : SpillFormat α} {compare : Comparison α}

theorem releaseSource_script [ErrorText ε] (script : Script α ε) (host : Host) :
    Ensures (releaseSource script) host fun source _ => source = script := by
  obtain ⟨reads, closeError⟩ := script
  cases closeError <;> exact rfl

/-- A sort whose reading fails tells the same error and gives the source back as far as it was read. -/
theorem sortBy_eq_error [ErrorText ε] {script left : Script α ε} {error : SortError ε} {host : Host}
    (failed : Ensures (modifyGet (Filling.readAll (sorter.plan format compare)
      (.start (sorter.plan format compare) script sorter.store))) host fun result _ =>
        result.1 = .error error ∧ result.2.source = left) :
    Ensures (sorter.sortBy format compare script) host fun result _ => result = .error ⟨error, left⟩ := by
  simp only [sortBy, Filling.run]
  rw [Ensures.bind_iff, Ensures.bind_iff]
  apply failed.mono
  rintro ⟨answer, filling⟩ later ⟨rfl, rfl⟩
  dsimp only
  rw [Ensures.pure_iff, Ensures.bind_iff]
  refine abort_rule (Ensures.intro fun store last _ => ⟨fun _ => rfl, fun _ => ?_⟩)
  apply (releaseSource_script filling.source last).mono
  rintro source final rfl
  rfl

/-- The stream of a sort has the source as it was when it had been read. -/
theorem sortBy_source [ErrorText ε] {script left : Script α ε} {host : Host}
    (filled : Ensures (modifyGet (Filling.readAll (ε := ε) (sorter.plan format compare)
      (.start (sorter.plan format compare) script sorter.store))) host fun result _ => result.2.source = left) :
    Ensures (sorter.sortBy format compare script) host fun result _ => ∀ stream, result = .ok stream →
      stream.source = left := by
  refine sortBy_rule (fun _ filling _ => filling.source = left) ?_ ?_
  · unfold Filling.run
    rw [Ensures.bind_iff]
    apply filled.mono
    rintro ⟨answer, filling⟩ later same
    cases answer with
    | error error => exact nofun
    | ok =>
      rw [Ensures.bind_iff]
      exact Ensures.intro fun _ _ _ _ _ => same
  · rintro outcome filling start start' same -
    have opened : (openStream compare filling outcome).source = filling.source := by cases outcome <;> rfl
    exact ((openStream compare filling outcome).skip_onward sorter.options.offset start').mono
      fun _ _ onward _ => onward.source_eq.trans (opened.trans same)

/-- What a sort of a script fails with, where only the records can keep a page from being written: the first refusal
in a full page of the records before the first failing read, the script then being read to the end of that page, and
else that read, the script being read up to it. -/
def failure? (plan : RunPlan α) (script : Script α ε) : Option (SortFailure (Script α ε) ε) :=
  match Filling.firstRefusal? plan (goods script.reads) with
  | some (index, reason) => some ⟨.spillWrite (.encode reason),
      { script with reads := script.reads.drop ((index + 1) * plan.pageSize) }⟩
  | none => (firstError? script.reads).map fun error =>
      ⟨.input error, { script with reads := script.reads.drop ((goods script.reads).length + 1) }⟩

end Sorter

end SpillSort
