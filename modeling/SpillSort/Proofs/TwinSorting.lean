import SpillSort.Proofs.Twins

/-! # The same source sorted on two stores

A source is cut into the same runs whatever else there is on the temporary store, and each run has the same content
in its file. So sorting fails on both stores with the same error, or both give streams that are twins. That the
place of the directories can be used has to be the same on both.
-/

namespace SpillSort

variable {σ α β β' δ ε : Type} {host host' : Host}

/-- The same error, or results that are alike. -/
inductive Agree (alike : β → β' → Prop) : Except δ β → Except δ β' → Prop
  | error (error : δ) : Agree alike (.error error) (.error error)
  | ok {result : β} {result' : β'} : alike result result' → Agree alike (.ok result) (.ok result')

/-! ## Writing -/

namespace SpillStore

variable {store store' : SpillStore}

/-- Two stores that differ at most in which directory they have and in what they have written to it. -/
structure Twin (store store' : SpillStore) : Prop where
  place_eq : store'.place = store.place
  bufferSize_eq : store'.bufferSize = store.bufferSize
  directory_iff : store'.directory = none ↔ store.directory = none

theorem Twin.refl (store : SpillStore) : store.Twin store := ⟨rfl, rfl, Iff.rfl⟩

theorem Twin.refusal?_eq {disk disk' : Disk} (twin : store.Twin store') (refused_eq : disk'.refused = disk.refused)
    (format : SpillFormat α) (records : List α) :
    store'.refusal? format records disk' = store.refusal? format records disk := by
  have barred_eq : store'.barred? disk' = store.barred? disk := by
    simp only [barred?, twin.place_eq, refused_eq]
    have iff := twin.directory_iff
    cases missing : store.directory with
    | none => simp only [iff.mpr missing]
    | some directory =>
      obtain ⟨directory', found⟩ := Option.ne_none_iff_exists'.mp fun missing' => by
        rw [iff.mp missing'] at missing
        cases missing
      simp only [found]
  have dump_eq : store'.dump format records = store.dump format records := by
    simp only [dump, twin.bufferSize_eq]
  simp only [refusal?, barred_eq, dump_eq]

/-- Two stores that were twins and have written the same are twins. -/
theorem Twin.wrote {written written' : SpillStore} {format : SpillFormat α} {records : List α}
    {handle handle' : SpillHandle} {before before' after after' : Disk} (twin : store.Twin store')
    (wrote : store.Wrote format records before handle written after)
    (wrote' : store'.Wrote format records before' handle' written' after') : written.Twin written' where
  place_eq := by rw [wrote.place_eq, wrote'.place_eq, twin.place_eq]
  bufferSize_eq := by rw [wrote.bufferSize_eq, wrote'.bufferSize_eq, twin.bufferSize_eq]
  directory_iff := by simp only [wrote.directory_eq, wrote'.directory_eq, reduceCtorEq]

/-- The same records are written to both stores, or to neither for the same reason. -/
theorem write_twin (twin : store.Twin store') (ready : store.Ready host.disk) (ready' : store'.Ready host'.disk)
    (sound : host.disk.Sound) (sound' : host'.disk.Sound) (refused_eq : host'.disk.refused = host.disk.refused)
    (format : SpillFormat α) (records : List α) :
    Both (store.write format records) host (store'.write format records) host' fun result later result' later' =>
      (host.disk.Within (store.directory = some ·) later.disk ∧ host'.disk.Within (store'.directory = some ·) later'.disk) ∧
        Agree (fun handle handle' => store.Wrote format records host.disk handle result.2 later.disk ∧
          store'.Wrote format records host'.disk handle' result'.2 later'.disk) result.1 result'.1 := by
  have written := (@write_spec _ _ format records _ ready sound).and (write_refusal ready sound format records)
  have written' := (@write_spec _ _ format records _ ready' sound').and (write_refusal ready' sound' format records)
  rw [twin.refusal?_eq refused_eq] at written'
  apply (Both.of_ensures written written').mono
  rintro ⟨answer, after⟩ later ⟨answer', after'⟩ later' ⟨⟨⟨within, -, outcome⟩, known⟩, ⟨within', -, outcome'⟩, known'⟩
  refine ⟨⟨within, within'⟩, ?_⟩
  cases reason : store.refusal? format records host.disk with
  | some error =>
    rw [reason] at known known'
    obtain rfl : answer = .error error := known
    obtain rfl : answer' = .error error := known'
    exact .error error
  | none =>
    rw [reason] at known known'
    obtain ⟨handle, rfl⟩ := known
    obtain ⟨handle', rfl⟩ := known'
    exact .ok ⟨outcome, outcome'⟩

end SpillStore

/-! ## Opening -/

/-- The files of two runs have the frames of the same records. -/
def SpillHandle.Twin (format : SpillFormat α) (disk disk' : Disk) (handle handle' : SpillHandle) : Prop :=
  ∃ records, handle.Holds format records disk ∧ handle'.Holds format records disk'

namespace Filling

variable {format : SpillFormat α}

theorem openReader_twin {store store' : SpillStore} {handle handle' : SpillHandle}
    (twin : handle.Twin format host.disk host'.disk handle') (bufferSize_eq : store'.bufferSize = store.bufferSize)
    (sound : host.disk.Sound) (sound' : host'.disk.Sound) :
    Both (store.openReader format handle) host (store'.openReader format handle') host' fun result later result' later' =>
      (later = host ∧ later' = host') ∧ ∃ reader reader', (result = .ok reader ∧ result' = .ok reader') ∧
        reader.Twin host.disk host'.disk reader' := by
  obtain ⟨records, holds, holds'⟩ := twin
  apply (Both.of_ensures (store.openReader_found holds) (store'.openReader_found holds')).mono
  rintro result later result' later' ⟨⟨rfl, node, frames, file, found, encoded, content_eq, got, rfl⟩,
    rfl, node', frames', file', found', encoded', content_eq', got', rfl⟩
  obtain rfl : frames' = frames := Except.ok.inj (encoded'.symm.trans encoded)
  have same : later'.disk.content node' = later.disk.content node := content_eq'.trans content_eq.symm
  rw [bufferSize_eq] at got'
  generalize store.bufferSize.getD BufferedFile.standardCapacity = capacity at got got'
  have moved : ((BufferedFile.start node capacity).moved node').readExact? Frame.magic.length later'.disk = _ :=
    BufferedFile.readExact?_moved same _
  rw [got] at moved
  obtain rfl : file' = file.moved node' := by cases got'.symm.trans moved; rfl
  refine ⟨⟨rfl, rfl⟩, _, _, ⟨rfl, rfl⟩, handle'.path, node', rfl, ?_⟩
  rintro _ ⟨⟩
  rw [BufferedFile.node_of_readExact? got]
  exact ⟨sound.node_lt _ _ found, sound'.node_lt _ _ found', same⟩

theorem openRuns_twin {store store' : SpillStore} {handles handles' : List SpillHandle}
    (twins : List.Forall₂ (SpillHandle.Twin format host.disk host'.disk) handles handles')
    (bufferSize_eq : store'.bufferSize = store.bufferSize) (sound : host.disk.Sound) (sound' : host'.disk.Sound) :
    Both (openRuns format store handles) host (openRuns format store' handles') host' fun result later result' later' =>
      (later = host ∧ later' = host') ∧ ∃ runs runs', (result = .ok runs ∧ result' = .ok runs') ∧
        List.Forall₂ (RunReader.Twin host.disk host'.disk) runs runs' := by
  induction twins with
  | nil => exact ⟨⟨rfl, rfl⟩, [], [], ⟨rfl, rfl⟩, .nil⟩
  | cons first _ ih =>
    simp only [openRuns]
    rw [Both.bind_iff]
    apply (openReader_twin first bufferSize_eq sound sound').mono
    rintro _ later _ later' ⟨⟨rfl, rfl⟩, reader, reader', ⟨rfl, rfl⟩, path, node, rfl, alike⟩
    dsimp only
    rw [Both.bind_iff]
    apply ih.mono
    rintro _ last _ last' ⟨⟨rfl, rfl⟩, runs, runs', ⟨rfl, rfl⟩, others⟩
    exact ⟨⟨rfl, rfl⟩, _, _, ⟨rfl, rfl⟩, .cons (.spilled ⟨path, node, rfl, alike⟩) others⟩

/-! ## Filling -/

variable {plan : RunPlan α} {filling filling' : Filling σ α} {before before' : Disk}

/-- Two fillings that have cut what they have read into the same runs. -/
structure Twin (plan : RunPlan α) (disk disk' : Disk) (filling filling' : Filling σ α) : Prop where
  source_eq : filling'.source = filling.source
  page_eq : filling'.page = filling.page
  store : filling.store.Twin filling'.store
  runs : List.Forall₂ (SpillHandle.Twin plan.format disk disk') filling.runs filling'.runs

theorem accept_twin (twin : Twin plan host.disk host'.disk filling filling')
    (underway : filling.Underway plan before host.disk) (underway' : filling'.Underway plan before' host'.disk)
    (refused_eq : before'.refused = before.refused) (record : α) :
    Both (accept (ε := ε) plan filling record) host (accept (ε := ε) plan filling' record) host'
      fun result later result' later' =>
        Agree (fun _ _ => Twin plan later.disk later'.disk result.2 result'.2) result.1 result'.1 := by
  simp only [accept, twin.page_eq]
  split
  · rw [Both.bind_iff]
    simp only [spillPage]
    rw [Both.bind_iff]
    apply Both.report
    intro _ _ same same'
    rw [Both.bind_iff]
    apply Both.report
    intro start start' same_start same_start'
    rw [← same, ← same_start] at twin underway
    rw [← same', ← same_start'] at twin underway'
    have refused_eq' : start'.disk.refused = start.disk.refused := by
      rw [underway.begun.within.refused_eq, underway'.begun.within.refused_eq, refused_eq]
    obtain ⟨begun, -, read, cuts⟩ := underway
    obtain ⟨begun', -, read', cuts'⟩ := underway'
    rw [Both.bind_iff]
    apply (SpillStore.write_twin twin.store cuts.ready cuts'.ready begun.sound begun'.sound refused_eq' _ _).mono
    rintro ⟨answer, store⟩ later ⟨answer', store'⟩ later' ⟨⟨within, within'⟩, agree⟩
    cases agree with
    | error error => exact .error _
    | ok wrote =>
      obtain ⟨wrote, wrote'⟩ := wrote
      have kept : List.Forall₂ (SpillHandle.Twin plan.format later.disk later'.disk) filling.runs filling'.runs :=
        twin.runs.imp fun _ _ held => held.imp fun _ both =>
          ⟨wrote.still_holds within begun.sound both.1, wrote'.still_holds within' begun'.sound both.2⟩
      refine .ok ⟨twin.source_eq, rfl, twin.store.wrote wrote wrote', ?_⟩
      exact List.rel_append kept (.cons ⟨_, wrote.holds, wrote'.holds⟩ .nil)
  · exact .ok { twin with page_eq := rfl }

/-- The same sorted page, or runs that are twins. -/
inductive Outcome.Twin (disk disk' : Disk) : Outcome α → Outcome α → Prop
  | memory (records : List α) : Twin disk disk' (.memory records) (.memory records)
  | runs {runs runs' : List (RunReader α)} : List.Forall₂ (RunReader.Twin disk disk') runs runs' →
    Twin disk disk' (.runs runs) (.runs runs')

theorem conclude_twin (twin : Twin plan host.disk host'.disk filling filling') (sound : host.disk.Sound)
    (sound' : host'.disk.Sound) :
    Both (filling.conclude (ε := ε) plan) host (filling'.conclude (ε := ε) plan) host' fun result later result' later' =>
      Agree (fun outcome outcome' => outcome.Twin later.disk later'.disk outcome') result result' := by
  simp only [conclude, twin.page_eq]
  have none_iff : filling'.runs = [] ↔ filling.runs = [] := by
    rw [← List.length_eq_zero_iff, ← List.length_eq_zero_iff, twin.runs.length_eq]
  simp only [none_iff]
  split
  · rw [Both.bind_iff]
    exact Both.report fun _ _ _ _ => .ok (.memory _)
  · rw [Both.bind_iff]
    apply Both.report
    intro start start' same same'
    rw [← same] at twin sound
    rw [← same'] at twin sound'
    rw [Both.bind_iff]
    apply (openRuns_twin twin.runs twin.store.bufferSize_eq sound sound').mono
    rintro _ later _ later' ⟨⟨rfl, rfl⟩, runs, runs', ⟨rfl, rfl⟩, alike⟩
    exact .ok (.runs (List.rel_append alike (.cons (.memory _) .nil)))

variable [RecordSource σ α ε]

theorem readAll_twin (independent : Independent (ε := ε) (α := α) σ)
    (twin : Twin plan host.disk host'.disk filling filling') (underway : filling.Underway plan before host.disk)
    (underway' : filling'.Underway plan before' host'.disk) (refused_eq : before'.refused = before.refused) :
    Both (modifyGet (readAll (ε := ε) plan filling)) host (modifyGet (readAll (ε := ε) plan filling')) host'
      fun result later result' later' =>
        Agree (fun _ _ => Twin plan later.disk later'.disk result.2 result'.2) result.1 result'.1 := by
  induction bound : RecordSource.bound filling.source using Nat.strongRecOn generalizing filling filling' host host' with
  | ind bound ih =>
    subst bound
    obtain ⟨⟨answer, source⟩, asks⟩ := independent.next filling.source
    rw [readAll_eq, readAll_eq, twin.source_eq, Both.bind_iff]
    apply (Both.of_ensures ((asks host).and (Ensures.intro fun _ _ ran => ran)) (asks host')).mono
    rintro _ later _ later' ⟨⟨⟨rfl, same⟩, ran⟩, rfl, same'⟩
    rw [← same] at twin underway
    rw [← same'] at twin underway'
    have asked : Twin plan later.disk later'.disk { filling with source } { filling' with source } :=
      { twin with source_eq := rfl }
    match answer with
    | .error error => exact .error _
    | .ok none => exact .ok asked
    | .ok (some record) =>
      have begun := underway.ofSource source
      have begun' := underway'.ofSource source
      dsimp only
      rw [Both.bind_iff]
      apply ((accept_twin asked begun begun' refused_eq record).and
        (Both.of_ensures ((accept_underway begun record).and (accept_source plan _ record later))
          (accept_underway begun' record))).mono
      rintro ⟨accepted, fuller⟩ last ⟨accepted', fuller'⟩ last' ⟨agree, ⟨⟨-, onward⟩, source_eq⟩, -, onward'⟩
      cases agree with
      | error error => exact .error _
      | ok twin' =>
        have lowered : RecordSource.bound fuller.source < RecordSource.bound filling.source := by
          rw [show fuller.source = source from source_eq]
          exact RecordSource.bound_lt ran
        exact ih _ lowered twin' (onward rfl) (onward' rfl) rfl

theorem run_twin (independent : Independent (ε := ε) (α := α) σ) (positive : 0 < plan.pageSize)
    (sound : host.disk.Sound) (sound' : host'.disk.Sound) (refused_eq : host'.disk.refused = host.disk.refused)
    (source : σ) (place : Place) (bufferSize : Option Nat) :
    Both (run (ε := ε) plan source (.new place bufferSize)) host (run (ε := ε) plan source (.new place bufferSize)) host'
      fun result later result' later' =>
        Agree (fun outcome outcome' => outcome.Twin later.disk later'.disk outcome' ∧
          result'.2.source = result.2.source) result.1 result'.1 := by
  have begun := underway_start positive sound source place bufferSize
  have begun' := underway_start positive sound' source place bufferSize
  have twin : Twin plan host.disk host'.disk (start plan source (.new place bufferSize))
      (start plan source (.new place bufferSize)) := ⟨rfl, rfl, .refl _, .nil⟩
  simp only [run]
  rw [Both.bind_iff]
  apply ((readAll_twin independent twin begun begun' refused_eq).and
    (Both.of_ensures (readAll_underway independent begun) (readAll_underway independent begun'))).mono
  rintro ⟨answer, filling⟩ later ⟨answer', filling'⟩ later' ⟨agree, ⟨kept, -⟩, kept', -⟩
  cases agree with
  | error error => exact .error error
  | ok twin' =>
    dsimp only
    rw [Both.bind_iff]
    apply (conclude_twin twin' kept.sound kept'.sound).mono
    rintro outcome last outcome' last' agree
    cases agree with
    | error error => exact .error error
    | ok alike => exact .ok ⟨alike, twin'.source_eq⟩

end Filling

/-! ## Sorting -/

namespace Sorter

theorem openStream_twin (compare : Comparison α) {filling filling' : Filling σ α} {outcome outcome' : Filling.Outcome α}
    {disk disk' : Disk} (twin : outcome.Twin disk disk' outcome') (source_eq : filling'.source = filling.source) :
    SortedStream.Twin disk disk' (openStream compare filling outcome) (openStream compare filling' outcome') := by
  cases twin with
  | memory records => exact ⟨.memory records, rfl, source_eq, rfl, rfl⟩
  | runs alike => exact ⟨.merging ⟨alike, rfl, rfl, rfl, rfl⟩, rfl, source_eq, rfl, rfl⟩

variable [RecordSource σ α ε] [ErrorText ε]

theorem position_twin (sorter : Sorter) {stream stream' : SortedStream σ α}
    (twin : SortedStream.Twin host.disk host'.disk stream stream') :
    Both (sorter.position (ε := ε) stream) host (sorter.position (ε := ε) stream') host' fun result later result' later' =>
      Agree (SortedStream.Twin later.disk later'.disk) (result.mapError SortFailure.error)
        (result'.mapError SortFailure.error) := by
  simp only [position]
  apply Both.reportIf
  intro start start' same same'
  rw [← same, ← same'] at twin
  rw [Both.bind_iff]
  apply (SortedStream.skip_twin sorter.options.offset twin).mono
  rintro ⟨answer, skipped⟩ later ⟨answer', skipped'⟩ later' ⟨answer_eq, twin', -, -⟩
  obtain rfl : answer = answer' := answer_eq.symm
  cases answer with
  | error error =>
    rw [Both.bind_iff]
    exact Both.of_forall fun _ _ _ _ => .error error
  | ok => exact .ok { twin' with remaining_eq := rfl }

/-- Sorting the same source on two stores fails with the same error, or gives streams that are twins. -/
theorem sortBy_twin (independent : Independent (ε := ε) (α := α) σ) (sorter : Sorter) (format : SpillFormat α)
    (compare : Comparison α) (source : σ) (sound : host.disk.Sound) (sound' : host'.disk.Sound)
    (refused_eq : host'.disk.refused = host.disk.refused) :
    Both (sorter.sortBy (ε := ε) format compare source) host (sorter.sortBy (ε := ε) format compare source) host'
      fun result later result' later' =>
        Agree (SortedStream.Twin later.disk later'.disk) (result.mapError SortFailure.error)
          (result'.mapError SortFailure.error) := by
  simp only [sortBy]
  rw [Both.bind_iff]
  apply (Filling.run_twin independent sorter.pageSize_pos sound sound' refused_eq source _ _).mono
  rintro ⟨answer, filling⟩ later ⟨answer', filling'⟩ later' agree
  cases agree with
  | error error =>
    dsimp only
    rw [Both.bind_iff]
    apply (Both.of_ensures (abort_error error filling later) (abort_error error filling' later')).mono
    rintro failure last failure' last' ⟨rfl, same⟩
    change Agree _ (.error failure.error) (.error failure'.error)
    rw [same]
    exact .error failure.error
  | ok alike => exact position_twin sorter (openStream_twin compare alike.1 alike.2)

end Sorter

end SpillSort
