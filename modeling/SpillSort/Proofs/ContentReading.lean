import SpillSort.Proofs.RunReading

/-! # Reading a file whatever it holds

Anything may have become of a spill file by the time it is opened. Opening refuses it if its length or its header is
not that of the run, and what a reader gives then depends on the bytes of the file alone: the records of the frames at
its front, the fault of the first frame that is not whole or holds no record, if one comes before the last record,
and nothing after that. The count of what is left to read is exact throughout, and a frame that claims more than
that is not asked for.
-/

namespace SpillSort

/-! ## Requests -/

namespace BufferedFile

/-- A request to a file with a known content is answered if so many bytes are left. -/
theorem readExact?_content {file : BufferedFile} (count : Nat) {disk : Disk} {content : Bytes}
    (known : disk.content file.node = content) :
    if count ≤ (file.unread content).length then
      ∃ file' : BufferedFile, file.readExact? count disk = some ((file.unread content).take count, file') ∧
        file'.node = file.node ∧ file'.unread content = (file.unread content).drop count
    else file.readExact? count disk = none := by
  split
  · next enough =>
    have part : disk.content file.node <+: content := known ▸ List.prefix_refl _
    obtain ⟨-, cut⟩ | answered := readExact?_cases count part enough
    · exact absurd known cut
    · exact answered
  · next short =>
    rw [unread, List.length_append] at short
    unfold readExact?
    rw [if_neg (by omega), known]
    dsimp only
    rw [if_pos (by rw [List.length_take]; omega)]

/-- The file stands somewhere in a content: what is still to be read is an end of it, and `left` counts its bytes. -/
structure StandsIn (file : BufferedFile) (content : Bytes) (left : Nat) : Prop where
  suffix : file.unread content <:+ content
  left_eq : left = (file.unread content).length

end BufferedFile

/-! ## Frames -/

namespace Frame

variable {α : Type}

/-- The length that the next frame claims, with the file and the count of bytes behind its word. A frame that claims
more than that is refused here, before there is a buffer for its payload. -/
def claim (file : BufferedFile) (left : Nat) (disk : Disk) : Except RunFault (Nat × BufferedFile × Nat) :=
  if left < lengthWidth then .error .truncated
  else
    match file.readExact? lengthWidth disk with
    | none => .error .truncated
    | some (word, file) =>
      let length := Bytes.ofLittleEndian word
      let left := left - lengthWidth
      if left < length then .error (.overrun length left) else .ok (length, file, left)

/-- Reading a frame is to fill a buffer of just the length that it claims. -/
theorem read_eq_claim (file : BufferedFile) (left : Nat) (disk : Disk) :
    read file left disk = (claim file left disk).bind fun (length, file, left) =>
      match file.readExact? length disk with
      | none => .error .truncated
      | some (payload, file) => .ok (payload, file, left - length) := by
  unfold read claim
  split
  · rfl
  · cases file.readExact? lengthWidth disk with
    | none => rfl
    | some answer =>
      dsimp only
      split
      · rfl
      · rfl

/-- The payload of the frame at the front of some bytes, and what is behind it. -/
def front (bytes : Bytes) : Except RunFault (Bytes × Bytes) :=
  if bytes.length < lengthWidth then .error .truncated
  else
    let length := Bytes.ofLittleEndian (bytes.take lengthWidth)
    let rest := bytes.drop lengthWidth
    if rest.length < length then .error (.overrun length rest.length) else .ok (rest.take length, rest.drop length)

/-- The records of so many frames at the front of some bytes, as far as they can be had, and the fault that ends them
early. -/
def decodeAll (format : SpillFormat α) : Nat → Bytes → List α × Option RunFault
  | 0, _ => ([], none)
  | count + 1, bytes =>
    match front bytes with
    | .error fault => ([], some fault)
    | .ok (payload, rest) =>
      match format.decode payload with
      | .error fault => ([], some (.payload fault))
      | .ok record => (record :: (decodeAll format count rest).1, (decodeAll format count rest).2)

theorem length_decodeAll_le (format : SpillFormat α) (count : Nat) (bytes : Bytes) :
    (decodeAll format count bytes).1.length ≤ count := by
  induction count generalizing bytes with
  | zero => exact Nat.le_refl _
  | succ count ih =>
    simp only [decodeAll]
    split
    · exact Nat.zero_le _
    · split
      · exact Nat.zero_le _
      · exact Nat.succ_le_succ (ih _)

/-- There is a fault just where a record is missing. -/
theorem decodeAll_eq_none_iff (format : SpillFormat α) (count : Nat) (bytes : Bytes) :
    (decodeAll format count bytes).2 = none ↔ (decodeAll format count bytes).1.length = count := by
  induction count generalizing bytes with
  | zero => simp [decodeAll]
  | succ count ih =>
    simp only [decodeAll]
    split
    · simp
    · split
      · simp
      · simpa using ih _

/-- What a frame claims is its payload, of which nothing has been read then. -/
theorem claim_content {file : BufferedFile} {left : Nat} {disk : Disk} {content : Bytes}
    (stands : file.StandsIn content left) (known : disk.content file.node = content) :
    match front (file.unread content) with
    | .error fault => claim file left disk = .error fault
    | .ok (payload, rest) => ∃ after : BufferedFile,
        claim file left disk = .ok (payload.length, after, (payload ++ rest).length) ∧ after.node = file.node ∧
          after.unread content = payload ++ rest ∧ after.StandsIn content (payload ++ rest).length ∧
            left = lengthWidth + (payload ++ rest).length := by
  have left_eq := stands.left_eq
  by_cases short : (file.unread content).length < lengthWidth
  · simp only [front, if_pos short, claim, left_eq]
  · have answered := file.readExact?_content lengthWidth known
    rw [if_pos (Nat.le_of_not_lt short)] at answered
    obtain ⟨after, got, node_eq, unread_eq⟩ := answered
    have behind : (file.unread content).length - lengthWidth = ((file.unread content).drop lengthWidth).length :=
      List.length_drop.symm
    simp only [front, if_neg short, claim, left_eq, got, behind]
    have suffix : (file.unread content).drop lengthWidth <:+ content := (List.drop_suffix _ _).trans stands.suffix
    generalize (file.unread content).drop lengthWidth = rest at unread_eq behind suffix
    generalize Bytes.ofLittleEndian ((file.unread content).take lengthWidth) = length
    by_cases beyond : rest.length < length
    · simp only [if_pos beyond]
    · have length_eq : (rest.take length).length = length := List.length_take_of_le (Nat.le_of_not_lt beyond)
      simp only [if_neg beyond, List.take_append_drop, length_eq]
      exact ⟨after, rfl, node_eq, unread_eq, ⟨unread_eq ▸ suffix, by rw [unread_eq]⟩, by omega⟩

/-- From a file with a known content the frame at the front of what is left is read. -/
theorem read_content {file : BufferedFile} {left : Nat} {disk : Disk} {content : Bytes}
    (stands : file.StandsIn content left) (known : disk.content file.node = content) :
    match front (file.unread content) with
    | .error fault => read file left disk = .error fault
    | .ok (payload, rest) => ∃ file' : BufferedFile, read file left disk = .ok (payload, file', rest.length) ∧
        file'.node = file.node ∧ file'.unread content = rest ∧ file'.StandsIn content rest.length := by
  have claimed := claim_content stands known
  rw [read_eq_claim]
  split
  · next fault found =>
    rw [found] at claimed
    dsimp only at claimed
    rw [claimed]
    rfl
  · next payload rest found =>
    rw [found] at claimed
    obtain ⟨after, claimed, node_eq, unread_eq, stands', -⟩ := claimed
    have answered := after.readExact?_content payload.length (node_eq ▸ known)
    rw [unread_eq, if_pos (by simp), List.take_left' rfl, List.drop_left' rfl] at answered
    obtain ⟨last, got, node_eq', unread_eq'⟩ := answered
    have left_eq : (payload ++ rest).length - payload.length = rest.length := by simp
    rw [claimed, Except.bind]
    dsimp only
    rw [got, left_eq]
    refine ⟨last, rfl, node_eq'.trans node_eq, unread_eq', ?_, by rw [unread_eq']⟩
    have behind : payload ++ rest <:+ content := unread_eq ▸ stands'.suffix
    rw [unread_eq']
    exact (List.suffix_append payload rest).trans behind

end Frame

/-! ## Readers -/

namespace SpillReader

variable {α : Type} {node : Nat} {content : Bytes}

/-- The answers of a reader that is asked at some moments, and what has become of it. Anything may happen to the host
between them. -/
def askedAt : List Host → SpillReader α → List (Option (Except SpillError α)) × SpillReader α
  | [], reader => ([], reader)
  | moment :: moments, reader =>
    let asked := (reader.next.run moment).1
    (asked.1 :: (askedAt moments asked.2).1, (askedAt moments asked.2).2)

/-- Records, and then the fault that ends them early. -/
def results (given : List α × Option RunFault) : List (Except SpillError α) :=
  given.1.map .ok ++ given.2.toList.map fun fault => .error (.decode fault)

/-- The answers to so many requests where these results are to come: one each, and then nothing. -/
def answers {ρ : Type} (due : List ρ) (count : Nat) : List (Option ρ) :=
  (due.map some).take count ++ List.replicate (count - due.length) none

theorem answers_succ {ρ : Type} (due : List ρ) (count : Nat) :
    answers due (count + 1) = due.head? :: answers due.tail count := by
  cases due with
  | nil => simp [answers, List.replicate_succ]
  | cons result due => simp [answers]

theorem countP_answers_le {ρ : Type} (due : List ρ) (count : Nat) : (answers due count).countP Option.isSome ≤ due.length := by
  induction count generalizing due with
  | zero => simp [answers]
  | succ count ih =>
    have rest := ih due.tail
    rw [answers_succ, List.countP_cons]
    cases due with
    | nil => simpa using rest
    | cons result due => simpa using rest

/-- The results that a reader has to come if its file has this content. -/
def due (reader : SpillReader α) (content : Bytes) : List (Except SpillError α) :=
  match reader.file with
  | none => []
  | some file => results (Frame.decodeAll reader.format reader.remaining (file.unread content))

theorem due_of_closed {reader : SpillReader α} (closed : reader.file = none) : reader.due content = [] := by
  rw [due, closed]

theorem due_of_opened {reader : SpillReader α} {file : BufferedFile} (opened : reader.file = some file) :
    reader.due content = results (Frame.decodeAll reader.format reader.remaining (file.unread content)) := by
  rw [due, opened]

/-- An open reader stands in the content of its file and counts what is left of it. -/
def StandsIn (reader : SpillReader α) (node : Nat) (content : Bytes) : Prop :=
  ∀ file, reader.file = some file → file.node = node ∧ file.StandsIn content reader.left

theorem length_due_le (reader : SpillReader α) (content : Bytes) : (reader.due content).length ≤ reader.sizeHint.2 := by
  cases opened : reader.file with
  | none => simp [due_of_closed opened]
  | some file =>
    have bounded := Frame.length_decodeAll_le reader.format reader.remaining (file.unread content)
    have whole := Frame.decodeAll_eq_none_iff reader.format reader.remaining (file.unread content)
    simp only [due_of_opened opened, sizeHint, opened, results, List.length_append, List.length_map, Option.isSome_some,
      if_true]
    generalize Frame.decodeAll reader.format reader.remaining (file.unread content) = given at bounded whole
    obtain ⟨records, fault?⟩ := given
    cases fault? with
    | none => exact bounded
    | some fault =>
      have missing : records.length ≠ reader.remaining := fun all => nomatch whole.mpr all
      exact Nat.lt_of_le_of_ne bounded missing

/-- While records remain, reading one gives the first of the results that are due. -/
theorem readRecord_content {reader : SpillReader α} {file : BufferedFile} {disk : Disk} (more : reader.remaining ≠ 0)
    (stands : file.StandsIn content reader.left) (known : disk.content file.node = content) :
    results (Frame.decodeAll reader.format reader.remaining (file.unread content)) =
        (reader.readRecord file disk).1 :: (reader.readRecord file disk).2.due content ∧
      (reader.readRecord file disk).2.StandsIn file.node content := by
  obtain ⟨count, remaining_eq⟩ := Nat.exists_eq_succ_of_ne_zero more
  have taken := Frame.read_content stands known
  simp only [remaining_eq, Frame.decodeAll, readRecord]
  cases found : Frame.front (file.unread content) with
  | error fault =>
    simp only [found] at taken
    simp only [taken]
    exact ⟨rfl, nofun⟩
  | ok piece =>
    obtain ⟨payload, rest⟩ := piece
    simp only [found] at taken
    obtain ⟨file', got, node_eq, unread_eq, stands'⟩ := taken
    simp only [got]
    cases reader.format.decode payload with
    | error fault => exact ⟨rfl, nofun⟩
    | ok record =>
      refine ⟨?_, ?_⟩
      · simp only [due, results, unread_eq, Nat.succ_sub_one, List.map_cons, List.cons_append]
      · rintro _ ⟨⟩
        exact ⟨node_eq, stands'⟩

/-- A request takes the first of the results that are due. -/
theorem next_content {reader : SpillReader α} {host : Host} (stands : reader.StandsIn node content)
    (known : host.disk.content node = content) :
    Ensures reader.next host fun asked _ => asked.1 = (reader.due content).head? ∧
      asked.2.due content = (reader.due content).tail ∧ asked.2.StandsIn node content := by
  simp only [next]
  split
  · next exhausted =>
    rw [Ensures.bind_iff]
    apply (reader.finish_spec host).mono
    rintro ended later ⟨rfl, -⟩
    have nothing : reader.due content = [] := by
      cases opened : reader.file with
      | none => exact due_of_closed opened
      | some file =>
        rw [due_of_opened opened, exhausted]
        rfl
    rw [nothing]
    refine ⟨rfl, rfl, ?_⟩
    rintro file ⟨⟩
  · next more =>
    split
    · next closed =>
      rw [Ensures.pure_iff, due_of_closed closed]
      exact ⟨rfl, rfl, stands⟩
    · next file opened =>
      obtain ⟨node_eq, standing⟩ := stands file opened
      obtain ⟨due_eq, stands'⟩ := readRecord_content more standing (node_eq ▸ known)
      rw [node_eq] at stands'
      rw [Ensures.bind_iff, Ensures.get_iff, due_of_opened opened, due_eq]
      exact ⟨rfl, rfl, stands'⟩

/-- Requests take the results that are due one by one, and nothing comes after them. -/
theorem askedAt_content {reader : SpillReader α} {moments : List Host} (stands : reader.StandsIn node content)
    (known : ∀ moment ∈ moments, moment.disk.content node = content) :
    (reader.askedAt moments).1 = answers (reader.due content) moments.length ∧
      (reader.askedAt moments).2.StandsIn node content := by
  induction moments generalizing reader with
  | nil => exact ⟨by simp [askedAt, answers], stands⟩
  | cons moment moments ih =>
    obtain ⟨first, others⟩ := List.forall_mem_cons.mp known
    obtain ⟨answer_eq, due_eq, stands'⟩ := next_content stands first
    obtain ⟨answers_eq, last⟩ := ih stands' others
    refine ⟨?_, last⟩
    rw [List.length_cons, answers_succ, ← answer_eq, ← due_eq, ← answers_eq]
    rfl

/-- Asked while its file has this content, the first reader can become the second. -/
def Becomes (node : Nat) (content : Bytes) (reader reader' : SpillReader α) : Prop :=
  ∃ moments : List Host, (∀ moment ∈ moments, moment.disk.content node = content) ∧ (reader.askedAt moments).2 = reader'

/-- A reader that gives some of its `count` records, with one fault behind them unless they are all, and then nothing,
and that keeps to the bytes of its file whenever it is asked. -/
structure ReadsSafely (reader : SpillReader α) (node : Nat) (content : Bytes) (count : Nat)
    (given : List α × Option RunFault) : Prop where
  length_le : given.1.length ≤ count
  whole_iff : given.2 = none ↔ given.1.length = count
  answers_eq : ∀ moments : List Host, (∀ moment ∈ moments, moment.disk.content node = content) →
    (reader.askedAt moments).1 = answers (results given) moments.length
  /-- The results still to come are never more than the hint says. -/
  hinted : ∀ reader', reader.Becomes node content reader' → ∀ moments : List Host,
    (∀ moment ∈ moments, moment.disk.content node = content) →
      (reader'.askedAt moments).1.countP Option.isSome ≤ reader'.sizeHint.2
  /-- What has been read and what is counted as left make up the file. -/
  stands : ∀ reader', reader.Becomes node content reader' → reader'.StandsIn node content
  /-- The buffer for a payload is no longer than what is left then, and no count goes below zero. -/
  claims : ∀ reader', reader.Becomes node content reader' → ∀ file, reader'.file = some file →
    ∀ disk : Disk, disk.content node = content → ∀ length after left,
      Frame.claim file reader'.left disk = .ok (length, after, left) →
        length ≤ left ∧ reader'.left = Frame.lengthWidth + left ∧ after.StandsIn content left

theorem StandsIn.readsSafely {reader : SpillReader α} (stands : reader.StandsIn node content) {count : Nat} {bytes : Bytes}
    (due_eq : reader.due content = results (Frame.decodeAll reader.format count bytes)) :
    reader.ReadsSafely node content count (Frame.decodeAll reader.format count bytes) where
  length_le := Frame.length_decodeAll_le _ _ _
  whole_iff := Frame.decodeAll_eq_none_iff _ _ _
  answers_eq moments known := due_eq ▸ (askedAt_content stands known).1
  hinted := by
    rintro reader' ⟨moments, known, rfl⟩ more known'
    have stands' := (askedAt_content stands known).2
    rw [(askedAt_content stands' known').1]
    exact Nat.le_trans (countP_answers_le _ _) (length_due_le _ content)
  stands := by
    rintro reader' ⟨moments, known, rfl⟩
    exact (askedAt_content stands known).2
  claims := by
    rintro reader' ⟨moments, known, rfl⟩ file opened disk same length after left claimed
    obtain ⟨node_eq, standing⟩ := (askedAt_content stands known).2 file opened
    have content_eq := Frame.claim_content standing (node_eq ▸ same)
    split at content_eq
    · cases claimed.symm.trans content_eq
    · obtain ⟨after', claimed', -, -, stands', left_eq⟩ := content_eq
      cases claimed.symm.trans claimed'
      exact ⟨by simp, left_eq, stands'⟩

end SpillReader

namespace SpillStore

variable {α : Type}

/-- Opening looks at the length and at the header of a file, and stands behind the header then. -/
theorem openReader_content (store : SpillStore) (format : SpillFormat α) (handle : SpillHandle) {host : Host} {node : Nat}
    {content : Bytes} (found : host.disk.entry? handle.path = some (.file node))
    (known : host.disk.content node = content) :
    Ensures (store.openReader format handle) host fun result _ =>
      if content.length = handle.size ∧ Frame.magic <+: content then
        ∃ file : BufferedFile, file.node = node ∧ file.unread content = content.drop Frame.magic.length ∧
          result = .ok ⟨format, some file, handle.path, handle.records, (content.drop Frame.magic.length).length, false⟩
      else ∃ fault, result = .error (.decode fault) := by
  unfold openReader
  rw [Ensures.bind_iff, Ensures.get_iff]
  dsimp only
  rw [found]
  dsimp only
  rw [known]
  by_cases length_eq : content.length = handle.size
  · rw [if_neg (not_not_intro length_eq)]
    generalize store.bufferSize.getD BufferedFile.standardCapacity = capacity
    have answered := (BufferedFile.start node capacity).readExact?_content Frame.magic.length known
    rw [BufferedFile.unread_start] at answered
    split at answered
    · obtain ⟨file, got, node_eq, unread_eq⟩ := answered
      rw [got]
      dsimp only
      by_cases header : content.take Frame.magic.length = Frame.magic
      · rw [if_neg (not_not_intro header), Ensures.pure_iff,
          if_pos ⟨length_eq, List.prefix_iff_eq_take.mpr header.symm⟩, ← length_eq]
        exact ⟨file, node_eq, unread_eq, by rw [List.length_drop]⟩
      · rw [if_pos header, Ensures.pure_iff, if_neg fun both => header (List.prefix_iff_eq_take.mp both.2).symm]
        exact ⟨_, rfl⟩
    · next short =>
      rw [answered]
      dsimp only
      rw [Ensures.pure_iff, if_neg fun both => short both.2.length_le]
      exact ⟨_, rfl⟩
  · rw [if_pos length_eq, Ensures.pure_iff, if_neg fun both => length_eq both.1]
    exact ⟨_, rfl⟩

/-- Whatever a file holds when it is opened: it is refused, or what is given of it is a matter of its bytes alone. -/
theorem openReader_readsSafely (store : SpillStore) (format : SpillFormat α) (handle : SpillHandle) {host : Host}
    {node : Nat} {content : Bytes} (found : host.disk.entry? handle.path = some (.file node))
    (known : host.disk.content node = content) :
    Ensures (store.openReader format handle) host fun result _ =>
      if content.length = handle.size ∧ Frame.magic <+: content then
        ∃ reader, result = .ok reader ∧ reader.remaining = handle.records ∧
          ∀ disposes, { reader with disposesOnExhaust := disposes }.ReadsSafely node content handle.records
            (Frame.decodeAll format handle.records (content.drop Frame.magic.length))
      else ∃ fault, result = .error (.decode fault) := by
  apply (store.openReader_content format handle found known).mono
  intro result later opened
  split at opened
  · next fine =>
    rw [if_pos fine]
    obtain ⟨file, node_eq, unread_eq, rfl⟩ := opened
    refine ⟨_, rfl, rfl, fun disposes => ?_⟩
    refine SpillReader.StandsIn.readsSafely ?_ ?_
    · rintro _ ⟨⟩
      refine ⟨node_eq, ?_, by rw [unread_eq]⟩
      rw [unread_eq]
      exact List.drop_suffix _ _
    · rw [SpillReader.due_of_opened rfl, unread_eq]
  · next refused =>
    rw [if_neg refused]
    exact opened

/-- A number, and then a frame that claims more than there is, where three numbers were expected. -/
theorem openReader_readsSafely_overrun :
    let content : Bytes := Frame.magic ++ [8, 0, 0, 0, 5, 0, 0, 0, 0, 0, 0, 0, 0xFF, 0xFF, 0xFF, 0xFF, 0]
    let host := Host.fresh (Disk.empty.withFile ⟨0, runName 0⟩ content)
    Ensures ((new .standard none).openReader .words ⟨⟨0, runName 0⟩, 3, 25⟩) host fun result _ =>
      ∃ reader, result = .ok reader ∧ (reader.askedAt [host, host, host]).1 =
        [some (.ok 5), some (.error (.decode (.overrun 4294967295 1))), none] := by
  intro content host
  have found : host.disk.entry? ⟨0, runName 0⟩ = some (.file 0) := by
    change Disk.entry? (Disk.empty.withFile ⟨0, runName 0⟩ content) _ = _
    rw [Disk.entry?_withFile, if_pos rfl]
    rfl
  apply ((new .standard none).openReader_readsSafely .words ⟨⟨0, runName 0⟩, 3, 25⟩ found (rfl : _ = content)).mono
  intro result later outcome
  rw [if_pos (by decide)] at outcome
  obtain ⟨reader, rfl, -, safely⟩ := outcome
  have known : ∀ moment ∈ [host, host, host], moment.disk.content 0 = content := by
    intro moment present
    simp only [List.mem_cons, List.not_mem_nil, or_false, or_self] at present
    rw [present]
    rfl
  exact ⟨reader, rfl, ((safely reader.disposesOnExhaust).answers_eq _ known).trans rfl⟩

end SpillStore

end SpillSort
