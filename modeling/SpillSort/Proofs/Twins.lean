import Mathlib.Data.List.Forall2
import SpillSort.Proofs.Footprint

/-! # Streams that differ in where their runs are

Two streams are twins when they have the same records to give, from files with the same content that may have other
names and be on another store. Asked for the same they answer the same and are twins again. Nothing else on the two
stores matters, so others may go on working there as long as they leave the content of files alone.
-/

namespace SpillSort

variable {σ α β β' γ ε : Type}

/-! ## Two runs of a step -/

/-- The answers of two steps and the hosts they leave meet a condition. -/
def Both (step : HostM β) (host : Host) (step' : HostM β') (host' : Host) (post : β → Host → β' → Host → Prop) : Prop :=
  Ensures step host fun answer later => Ensures step' host' fun answer' later' => post answer later answer' later'

namespace Both

variable {host host' : Host}

theorem mono {step : HostM β} {step' : HostM β'} {post weaker : β → Host → β' → Host → Prop}
    (both : Both step host step' host' post)
    (implies : ∀ answer later answer' later', post answer later answer' later' → weaker answer later answer' later') :
    Both step host step' host' weaker :=
  Ensures.mono both fun _ _ ensured => ensured.mono fun _ _ holds => implies _ _ _ _ holds

theorem of_ensures {step : HostM β} {step' : HostM β'} {post : β → Host → Prop} {post' : β' → Host → Prop}
    (ensured : Ensures step host post) (ensured' : Ensures step' host' post') :
    Both step host step' host' fun answer later answer' later' => post answer later ∧ post' answer' later' :=
  ensured.mono fun _ _ holds => ensured'.mono fun _ _ holds' => ⟨holds, holds'⟩

theorem and {step : HostM β} {step' : HostM β'} {post other : β → Host → β' → Host → Prop}
    (both : Both step host step' host' post) (also : Both step host step' host' other) :
    Both step host step' host' fun answer later answer' later' =>
      post answer later answer' later' ∧ other answer later answer' later' := ⟨both, also⟩

theorem bind_iff {δ δ' : Type} {first : HostM β} {rest : β → HostM δ} {first' : HostM β'} {rest' : β' → HostM δ'}
    {post : δ → Host → δ' → Host → Prop} :
    Both (first >>= rest) host (first' >>= rest') host' post ↔
      Both first host first' host' fun answer later answer' later' =>
        Both (rest answer) later (rest' answer') later' post := Iff.rfl

/-- Only the first step is taken apart. -/
theorem bind_left_iff {δ : Type} {first : HostM β} {rest : β → HostM δ} {step' : HostM β'}
    {post : δ → Host → β' → Host → Prop} :
    Both (first >>= rest) host step' host' post ↔
      Ensures first host fun answer later => Both (rest answer) later step' host' post := Iff.rfl

theorem pure_left_iff {answer : β} {step' : HostM β'} {post : β → Host → β' → Host → Prop} :
    Both (pure answer) host step' host' post ↔ Ensures step' host' (post answer host) := Iff.rfl

@[simp] theorem pure_iff {answer : β} {answer' : β'} {post : β → Host → β' → Host → Prop} :
    Both (pure answer) host (pure answer') host' post ↔ post answer host answer' host' := Iff.rfl

/-- Two steps that only write to the log. -/
theorem report {level level' : LogLevel} {text text' : String} {post : Unit → Host → Unit → Host → Prop}
    (holds : ∀ later later' : Host, later.disk = host.disk → later'.disk = host'.disk → post () later () later') :
    Both (Host.report level text) host (Host.report level' text') host' post :=
  Ensures.report fun later same => Ensures.report fun later' same' => holds later later' same same'

/-- Whether the same is told to the log makes no difference to what follows. -/
theorem reportIf {condition : Prop} [Decidable condition] {level : LogLevel} {text : String} {rest : Unit → HostM β}
    {rest' : Unit → HostM β'} {post : β → Host → β' → Host → Prop}
    (onward : ∀ later later' : Host, later.disk = host.disk → later'.disk = host'.disk →
      Both (rest ()) later (rest' ()) later' post) :
    Both (if condition then Host.report level text >>= rest else rest ()) host
      (if condition then Host.report level text >>= rest' else rest' ()) host' post := by
  split
  · exact bind_iff.mpr (report onward)
  · exact onward host host' rfl rfl

theorem of_forall {step : HostM β} {step' : HostM β'} {post : β → Host → β' → Host → Prop}
    (holds : ∀ answer later answer' later', post answer later answer' later') : Both step host step' host' post :=
  holds _ _ _ _

end Both

/-- Two steps have given the same answer and left twins, and no file that there was has another content. -/
structure InStep (twin : Disk → Disk → β → β' → Prop) (disk disk' : Disk) (result : γ × β) (later : Host)
    (result' : γ × β') (later' : Host) : Prop where
  answer_eq : result'.1 = result.1
  twin : twin later.disk later'.disk result.2 result'.2
  onward : disk.Within (fun _ => True) later.disk
  onward' : disk'.Within (fun _ => True) later'.disk

/-- Two steps that do nothing on the temporary store. -/
theorem InStep.still {twin : Disk → Disk → β → β' → Prop} {host host' : Host} {answer : γ} {state : β} {state' : β'}
    (alike : twin host.disk host'.disk state state') :
    InStep twin host.disk host'.disk (answer, state) host (answer, state') host' :=
  ⟨rfl, alike, .refl _ _, .refl _ _⟩

/-- What follows two steps that left the content of files alone. -/
theorem InStep.after {twin : Disk → Disk → β → β' → Prop} {disk disk' middle middle' : Disk} {result : γ × β}
    {result' : γ × β'} {later later' : Host} (step : InStep twin middle middle' result later result' later')
    (onward : disk.Within (fun _ => True) middle) (onward' : disk'.Within (fun _ => True) middle') :
    InStep twin disk disk' result later result' later' :=
  ⟨step.answer_eq, step.twin, onward.trans step.onward fun _ => .inl, onward'.trans step.onward' fun _ => .inl⟩

/-! ## Files -/

namespace BufferedFile

/-- The same place in another file. -/
def moved (file : BufferedFile) (node : Nat) : BufferedFile := { file with node }

/-- A file with the same content is read alike. -/
theorem readExact?_moved {file : BufferedFile} {node : Nat} {disk disk' : Disk}
    (same : disk'.content node = disk.content file.node) (count : Nat) :
    (file.moved node).readExact? count disk' =
      (file.readExact? count disk).map fun got => (got.1, got.2.moved node) := by
  simp only [readExact?, moved, same]
  split
  · rfl
  · split
    · rfl
    · rfl

theorem node_of_readExact? {file file' : BufferedFile} {count : Nat} {disk : Disk} {bytes : Bytes}
    (got : file.readExact? count disk = some (bytes, file')) : file'.node = file.node := by
  simp only [readExact?] at got
  split at got
  · cases got
    rfl
  · split at got
    · cases got
    · cases got
      rfl

end BufferedFile

namespace Frame

theorem node_of_read {file file' : BufferedFile} {left left' : Nat} {disk : Disk} {payload : Bytes}
    (got : read file left disk = .ok (payload, file', left')) : file'.node = file.node := by
  simp only [read] at got
  split at got
  · cases got
  · split at got
    · cases got
    · next first =>
      split at got
      · cases got
      · split at got
        · cases got
        · next second =>
          cases got
          exact (BufferedFile.node_of_readExact? second).trans (BufferedFile.node_of_readExact? first)

theorem read_moved {file : BufferedFile} {node : Nat} {disk disk' : Disk}
    (same : disk'.content node = disk.content file.node) (left : Nat) :
    read (file.moved node) left disk' =
      (read file left disk).map fun got => (got.1, got.2.1.moved node, got.2.2) := by
  simp only [read, BufferedFile.readExact?_moved same]
  split
  · rfl
  · rcases first : file.readExact? lengthWidth disk with _ | ⟨word, file'⟩
    · rfl
    · have same' : disk'.content node = disk.content file'.node := by
        rw [BufferedFile.node_of_readExact? first, same]
      simp only [Option.map_some, BufferedFile.readExact?_moved same']
      split
      · rfl
      · cases file'.readExact? (Bytes.ofLittleEndian word) disk with
        | none => rfl
        | some got => rfl

end Frame

/-! ## Runs -/

namespace SpillReader

/-- The same place in another file of another name. -/
def moved (reader : SpillReader α) (path : SpillPath) (node : Nat) : SpillReader α :=
  { reader with path, file := reader.file.map (·.moved node) }

/-- Two readers of files with the same content, at the same place. -/
def Twin (disk disk' : Disk) (reader reader' : SpillReader α) : Prop :=
  ∃ path node, reader' = reader.moved path node ∧ ∀ file, reader.file = some file →
    file.node < disk.contents.size ∧ node < disk'.contents.size ∧ disk'.content node = disk.content file.node

variable {reader reader' : SpillReader α} {disk disk' after after' : Disk} {host host' : Host}

theorem Twin.stable (twin : reader.Twin disk disk' reader') (onward : disk.Within (fun _ => True) after)
    (onward' : disk'.Within (fun _ => True) after') : reader.Twin after after' reader' := by
  obtain ⟨path, node, reader_eq, alike⟩ := twin
  refine ⟨path, node, reader_eq, fun file opened => ?_⟩
  obtain ⟨known, known', same⟩ := alike file opened
  refine ⟨Nat.lt_of_lt_of_le known onward.size_le, Nat.lt_of_lt_of_le known' onward'.size_le, ?_⟩
  rw [onward.content_eq _ known, onward'.content_eq _ known', same]

theorem readRecord_moved {file : BufferedFile} {node : Nat} (same : disk'.content node = disk.content file.node)
    (path : SpillPath) :
    (reader.moved path node).readRecord (file.moved node) disk' =
      ((reader.readRecord file disk).1, (reader.readRecord file disk).2.moved path node) := by
  simp only [readRecord]
  rw [show (reader.moved path node).left = reader.left from rfl, Frame.read_moved same]
  rcases Frame.read file reader.left disk with fault | ⟨payload, file', left⟩
  · rfl
  · simp only [Except.map]
    rw [show (reader.moved path node).format = reader.format from rfl]
    cases reader.format.decode payload with
    | error fault => rfl
    | ok record => rfl

/-- Reading a record goes on in the same file, if at all. -/
theorem node_readRecord {file file' : BufferedFile} (opened : (reader.readRecord file disk).2.file = some file') :
    file'.node = file.node := by
  simp only [readRecord] at opened
  split at opened
  · cases opened
  · next got =>
    split at opened
    · cases opened
    · cases opened
      exact Frame.node_of_read got

theorem onward_finish (reader : SpillReader α) (host : Host) :
    Ensures reader.finish host fun ended later =>
      ended = { reader with file := none } ∧ host.disk.Within (fun _ => True) later.disk := by
  apply (reader.finish_spec host).mono
  rintro ended later ⟨rfl, effect⟩
  refine ⟨rfl, ?_⟩
  rcases effect with same | removed
  · exact same ▸ .refl _ _
  · exact removed ▸ .remove trivial

theorem next_twin (twin : reader.Twin host.disk host'.disk reader') :
    Both reader.next host reader'.next host' (InStep Twin host.disk host'.disk) := by
  obtain ⟨path, node, rfl, alike⟩ := twin
  simp only [next]
  rw [show (reader.moved path node).remaining = reader.remaining from rfl]
  split
  · rw [Both.bind_iff]
    apply (Both.of_ensures (reader.onward_finish host) ((reader.moved path node).onward_finish host')).mono
    rintro ended later ended' later' ⟨⟨rfl, onward⟩, rfl, onward'⟩
    refine ⟨rfl, ⟨path, node, rfl, ?_⟩, onward, onward'⟩
    rintro _ ⟨⟩
  · cases opened : reader.file with
    | none =>
      have moved_eq : (reader.moved path node).file = none := by simp only [moved, opened, Option.map_none]
      rw [moved_eq]
      exact .still ⟨path, node, rfl, alike⟩
    | some file =>
      obtain ⟨known, known', same⟩ := alike file opened
      have moved_eq : (reader.moved path node).file = some (file.moved node) := by
        simp only [moved, opened, Option.map_some]
      have read_eq : (reader.moved path node).readRecord (file.moved node) host'.disk = _ := readRecord_moved same path
      rw [moved_eq]
      refine ⟨?_, ⟨path, node, ?_, ?_⟩, .refl _ _, .refl _ _⟩
      · exact congrArg (some ·.1) read_eq
      · exact congrArg Prod.snd read_eq
      · intro file' opened'
        rw [node_readRecord opened']
        exact ⟨known, known', same⟩

end SpillReader

namespace RunReader

/-- The same page, or readers of files with the same content. -/
inductive Twin (disk disk' : Disk) : RunReader α → RunReader α → Prop
  | memory (records : List α) : Twin disk disk' (.memory records) (.memory records)
  | spilled {reader reader' : SpillReader α} : reader.Twin disk disk' reader' →
    Twin disk disk' (.spilled reader) (.spilled reader')

theorem Twin.stable {disk disk' after after' : Disk} {run run' : RunReader α} (twin : run.Twin disk disk' run')
    (onward : disk.Within (fun _ => True) after) (onward' : disk'.Within (fun _ => True) after') :
    run.Twin after after' run' := by
  cases twin with
  | memory records => exact .memory records
  | spilled twin => exact .spilled (twin.stable onward onward')

theorem pull_twin {run run' : RunReader α} {host host' : Host} (twin : run.Twin host.disk host'.disk run') :
    Both run.pull host run'.pull host' (InStep Twin host.disk host'.disk) := by
  cases twin with
  | memory records =>
    cases records with
    | nil => exact .still (.memory [])
    | cons record records => exact .still (.memory records)
  | spilled twin =>
    simp only [pull]
    rw [Both.bind_iff]
    apply (SpillReader.next_twin twin).mono
    rintro result later result' later' ⟨answer_eq, twin', onward, onward'⟩
    exact ⟨answer_eq, .spilled twin', onward, onward'⟩

end RunReader

/-! ## Merges -/

theorem forall₂_getElem? {R : β → β' → Prop} {left : List β} {right : List β'} (alike : List.Forall₂ R left right)
    (index : Nat) : Option.Rel R left[index]? right[index]? := by
  induction alike generalizing index with
  | nil => exact .none
  | cons first _ ih =>
    cases index with
    | zero => exact .some first
    | succ index => simpa only [List.getElem?_cons_succ] using ih index

theorem forall₂_set {R : β → β' → Prop} {left : List β} {right : List β'} (alike : List.Forall₂ R left right)
    {element : β} {element' : β'} (put : R element element') (index : Nat) :
    List.Forall₂ R (left.set index element) (right.set index element') := by
  induction alike generalizing index with
  | nil => exact .nil
  | cons first rest ih =>
    cases index with
    | zero => exact .cons put rest
    | succ index => exact .cons first (ih index)

namespace Merger

variable {merger merger' : Merger (RunReader α) α SpillError} {host host' : Host}

/-- The same frontier, over runs that are twins. -/
structure Twin (disk disk' : Disk) (merger merger' : Merger (RunReader α) α SpillError) : Prop where
  inputs : List.Forall₂ (RunReader.Twin disk disk') merger.inputs merger'.inputs
  heads_eq : merger'.heads = merger.heads
  pending_eq : merger'.pending = merger.pending
  seeded_eq : merger'.seeded = merger.seeded
  failed_eq : merger'.failed = merger.failed

theorem Twin.stable {disk disk' after after' : Disk} (twin : Twin disk disk' merger merger')
    (onward : disk.Within (fun _ => True) after) (onward' : disk'.Within (fun _ => True) after') :
    Twin after after' merger merger' :=
  { twin with inputs := twin.inputs.imp fun _ _ alike => alike.stable onward onward' }

theorem Twin.fail {disk disk' : Disk} (twin : Twin disk disk' merger merger') : Twin disk disk' merger.fail merger'.fail :=
  ⟨.nil, rfl, rfl, twin.seeded_eq, rfl⟩

variable (compare : Comparison α)

theorem refill_twin (twin : Twin host.disk host'.disk merger merger') (index : Nat) :
    Both (merger.refill compare RunReader.pull index) host (merger'.refill compare RunReader.pull index) host'
      (InStep Twin host.disk host'.disk) := by
  simp only [refill]
  have found := forall₂_getElem? twin.inputs index
  generalize merger.inputs[index]? = input at found ⊢
  generalize merger'.inputs[index]? = input' at found ⊢
  cases found with
  | none => exact .still twin
  | some alike =>
    rw [Both.bind_iff]
    apply (RunReader.pull_twin alike).mono
    rintro ⟨answer, run⟩ later ⟨answer', run'⟩ later' ⟨answer_eq, alike', onward, onward'⟩
    obtain rfl : answer = answer' := answer_eq.symm
    have twin' := twin.stable onward onward'
    have inputs := forall₂_set twin'.inputs alike' index
    cases answer with
    | none => exact ⟨rfl, { twin' with inputs }, onward, onward'⟩
    | some pulled =>
      cases pulled with
      | error error => exact ⟨rfl, { twin' with inputs }, onward, onward'⟩
      | ok record =>
        have heads_eq := congrArg (Head.insert compare ⟨record, index⟩) twin.heads_eq
        exact ⟨rfl, ⟨inputs, heads_eq, twin.pending_eq, twin.seeded_eq, twin.failed_eq⟩, onward, onward'⟩

theorem refillAll_twin (indices : List Nat) (twin : Twin host.disk host'.disk merger merger') :
    Both (merger.refillAll compare RunReader.pull indices) host (merger'.refillAll compare RunReader.pull indices) host'
      (InStep Twin host.disk host'.disk) := by
  induction indices generalizing merger merger' host host' with
  | nil => exact .still twin
  | cons index indices ih =>
    simp only [refillAll]
    rw [Both.bind_iff]
    apply (refill_twin compare twin index).mono
    rintro ⟨fault, filled⟩ later ⟨fault', filled'⟩ later' ⟨fault_eq, twin', onward, onward'⟩
    obtain rfl : fault = fault' := fault_eq.symm
    cases fault with
    | some error => exact ⟨rfl, twin', onward, onward'⟩
    | none => exact (ih twin').mono fun _ _ _ _ step => step.after onward onward'

theorem takeHead_twin (twin : Twin host.disk host'.disk merger merger') :
    Both (merger.takeHead compare RunReader.pull) host (merger'.takeHead compare RunReader.pull) host'
      (InStep Twin host.disk host'.disk) := by
  simp only [takeHead, twin.heads_eq]
  split
  · exact .still twin
  · next head heads _ =>
    have rest : Twin host.disk host'.disk { merger with heads } { merger' with heads } := { twin with heads_eq := rfl }
    rw [Both.bind_iff]
    apply (refill_twin compare rest head.input).mono
    rintro ⟨fault, filled⟩ later ⟨fault', filled'⟩ later' ⟨fault_eq, twin', onward, onward'⟩
    obtain rfl : fault = fault' := fault_eq.symm
    exact ⟨rfl, { twin' with pending_eq := rfl }, onward, onward'⟩

theorem next_twin (twin : Twin host.disk host'.disk merger merger') :
    Both (merger.next compare RunReader.pull) host (merger'.next compare RunReader.pull) host'
      (InStep Twin host.disk host'.disk) := by
  simp only [next, twin.failed_eq, twin.pending_eq]
  split
  · exact .still twin
  · split
    · exact .still twin.fail
    · rw [Both.bind_iff]
      have seeded : Both (merger.seed compare RunReader.pull) host (merger'.seed compare RunReader.pull) host'
          (InStep Twin host.disk host'.disk) := by
        simp only [seed, twin.seeded_eq, ← twin.inputs.length_eq]
        split
        · exact .still twin
        · have seeding : Twin host.disk host'.disk { merger with seeded := true } { merger' with seeded := true } :=
            { twin with seeded_eq := rfl }
          exact refillAll_twin compare _ seeding
      apply seeded.mono
      rintro ⟨fault, filled⟩ later ⟨fault', filled'⟩ later' ⟨fault_eq, twin', onward, onward'⟩
      obtain rfl : fault = fault' := fault_eq.symm
      cases fault with
      | some error => exact ⟨rfl, twin'.fail, onward, onward'⟩
      | none => exact (takeHead_twin compare twin').mono fun _ _ _ _ step => step.after onward onward'

end Merger

namespace Phase

/-- The same page, mergers that are twins, or the same end. -/
inductive Twin (disk disk' : Disk) : Phase α → Phase α → Prop
  | memory (records : List α) : Twin disk disk' (.memory records) (.memory records)
  | merging {merger merger' : Merger (RunReader α) α SpillError} : merger.Twin disk disk' merger' →
    Twin disk disk' (.merging merger) (.merging merger')
  | exhausted : Twin disk disk' .exhausted .exhausted
  | closed : Twin disk disk' .closed .closed

theorem Twin.stable {disk disk' after after' : Disk} {phase phase' : Phase α} (twin : phase.Twin disk disk' phase')
    (onward : disk.Within (fun _ => True) after) (onward' : disk'.Within (fun _ => True) after') :
    phase.Twin after after' phase' := by
  cases twin with
  | memory records => exact .memory records
  | merging twin => exact .merging (twin.stable onward onward')
  | exhausted => exact .exhausted
  | closed => exact .closed

theorem Twin.closed_iff {disk disk' : Disk} {phase phase' : Phase α} (twin : phase.Twin disk disk' phase') :
    phase' = .closed ↔ phase = .closed := by
  cases twin with
  | memory records => exact ⟨nofun, nofun⟩
  | merging twin => exact ⟨nofun, nofun⟩
  | exhausted => exact Iff.rfl
  | closed => exact Iff.rfl

theorem pull_twin {phase phase' : Phase α} {host host' : Host} (twin : phase.Twin host.disk host'.disk phase')
    (compare : Comparison α) :
    Both (phase.pull compare) host (phase'.pull compare) host' (InStep Twin host.disk host'.disk) := by
  cases twin with
  | memory records =>
    cases records with
    | nil => exact .still (.memory [])
    | cons record records => exact .still (.memory records)
  | merging twin =>
    simp only [pull]
    rw [Both.bind_iff]
    apply (Merger.next_twin compare twin).mono
    rintro result later result' later' ⟨answer_eq, twin', onward, onward'⟩
    exact ⟨answer_eq, .merging twin', onward, onward'⟩
  | exhausted => exact .still .exhausted
  | closed => exact .still .closed

end Phase

/-! ## Streams -/

namespace SortedStream

variable {stream stream' : SortedStream σ α} {host host' : Host}

/-- Two streams that differ at most in where their runs are. -/
structure Twin (disk disk' : Disk) (stream stream' : SortedStream σ α) : Prop where
  phase : stream.phase.Twin disk disk' stream'.phase
  compare_eq : stream'.compare = stream.compare
  source_eq : stream'.source = stream.source
  peeked_eq : stream'.peeked = stream.peeked
  remaining_eq : stream'.remaining = stream.remaining

theorem Twin.stable {disk disk' after after' : Disk} (twin : Twin disk disk' stream stream')
    (onward : disk.Within (fun _ => True) after) (onward' : disk'.Within (fun _ => True) after') :
    Twin after after' stream stream' :=
  { twin with phase := twin.phase.stable onward onward' }

theorem onward_finish (stream : SortedStream σ α) (host : Host) :
    Ensures stream.finish host fun ended later => (∃ store, ended = { stream with phase := .exhausted, store }) ∧
      host.disk.Within (fun _ => True) later.disk := by
  simp only [finish]
  split
  · next exhausted => exact ⟨⟨stream.store, by rw [← exhausted]; rfl⟩, .refl _ _⟩
  · rw [Ensures.bind_iff]
    have within : Ensures stream.store.discard host fun _ later => host.disk.Within (fun _ => True) later.disk :=
      SpillStore.discard_within (fun _ _ => trivial) (fun _ _ => trivial) host
    exact within.mono fun store _ onward => ⟨⟨store, rfl⟩, onward⟩

theorem finish_twin (twin : Twin host.disk host'.disk stream stream') :
    Both stream.finish host stream'.finish host' fun ended later ended' later' =>
      Twin later.disk later'.disk ended ended' ∧
        host.disk.Within (fun _ => True) later.disk ∧ host'.disk.Within (fun _ => True) later'.disk := by
  apply (Both.of_ensures (stream.onward_finish host) (stream'.onward_finish host')).mono
  rintro ended later ended' later' ⟨⟨⟨store, rfl⟩, onward⟩, ⟨store', rfl⟩, onward'⟩
  exact ⟨⟨.exhausted, twin.compare_eq, twin.source_eq, twin.peeked_eq, twin.remaining_eq⟩, onward, onward'⟩

theorem settle_twin (twin : Twin host.disk host'.disk stream stream') (answer : Option (Except SpillError α)) :
    Both (stream.settle (ε := ε) answer) host (stream'.settle (ε := ε) answer) host'
      (InStep Twin host.disk host'.disk) := by
  match answer with
  | none =>
    simp only [settle]
    rw [Both.bind_iff]
    exact (finish_twin twin).mono fun _ _ _ _ outcome => ⟨rfl, outcome.1, outcome.2.1, outcome.2.2⟩
  | some (.error error) =>
    simp only [settle]
    rw [Both.bind_iff]
    apply Both.report
    intro start start' same same'
    rw [← same, ← same'] at twin ⊢
    rw [Both.bind_iff]
    exact (finish_twin twin).mono fun _ _ _ _ outcome => ⟨rfl, outcome.1, outcome.2.1, outcome.2.2⟩
  | some (.ok record) =>
    have counted : Twin host.disk host'.disk { stream with remaining := stream.remaining.map (· - 1) }
        { stream' with remaining := stream.remaining.map (· - 1) } := { twin with remaining_eq := rfl }
    simp only [settle, twin.remaining_eq]
    split
    · rw [Both.bind_iff]
      exact (finish_twin counted).mono fun _ _ _ _ outcome => ⟨rfl, outcome.1, outcome.2.1, outcome.2.2⟩
    · exact .still counted

theorem advance_of_opened (opened : stream.phase ≠ .closed) :
    stream.advance (ε := ε) =
      if stream.remaining = some 0 then return (.ok none, stream)
      else stream.phase.pull stream.compare >>= fun pulled => settle { stream with phase := pulled.2 } pulled.1 := by
  unfold advance
  split
  · next closed => exact absurd closed opened
  · rfl

theorem advance_twin (twin : Twin host.disk host'.disk stream stream') :
    Both (stream.advance (ε := ε)) host (stream'.advance (ε := ε)) host' (InStep Twin host.disk host'.disk) := by
  by_cases closed : stream.phase = .closed
  · simp only [advance, closed, twin.phase.closed_iff.mpr closed]
    exact .still twin
  · rw [advance_of_opened closed, advance_of_opened (closed ∘ twin.phase.closed_iff.mp), twin.remaining_eq,
      twin.compare_eq]
    split
    · exact .still twin
    · rw [Both.bind_iff]
      apply (Phase.pull_twin twin.phase stream.compare).mono
      rintro ⟨answer, phase⟩ later ⟨answer', phase'⟩ later' ⟨answer_eq, alike, onward, onward'⟩
      obtain rfl : answer = answer' := answer_eq.symm
      have pulled : Twin later.disk later'.disk { stream with phase }
          { stream' with phase := phase', compare := stream.compare, remaining := stream.remaining } :=
        ⟨alike, rfl, twin.source_eq, twin.peeked_eq, rfl⟩
      exact (settle_twin pulled answer).mono fun _ _ _ _ step => step.after onward onward'

theorem hasNext_twin (twin : Twin host.disk host'.disk stream stream') :
    Both (stream.hasNext (ε := ε)) host (stream'.hasNext (ε := ε)) host' (InStep Twin host.disk host'.disk) := by
  simp only [hasNext, twin.peeked_eq]
  split
  · exact .still twin
  · rw [Both.bind_iff]
    apply (advance_twin twin).mono
    rintro ⟨answer, after⟩ later ⟨answer', after'⟩ later' ⟨answer_eq, twin', onward, onward'⟩
    obtain rfl : answer = answer' := answer_eq.symm
    cases answer with
    | error error => exact ⟨rfl, twin', onward, onward'⟩
    | ok peeked => exact ⟨rfl, { twin' with peeked_eq := rfl }, onward, onward'⟩

theorem next_twin (twin : Twin host.disk host'.disk stream stream') :
    Both (stream.next (ε := ε)) host (stream'.next (ε := ε)) host' (InStep Twin host.disk host'.disk) := by
  simp only [next, twin.peeked_eq]
  split
  · exact .still { twin with peeked_eq := rfl }
  · exact advance_twin twin

theorem skip_twin (count : Nat) (twin : Twin host.disk host'.disk stream stream') :
    Both (stream.skip (ε := ε) count) host (stream'.skip (ε := ε) count) host'
      (InStep Twin host.disk host'.disk) := by
  induction count generalizing stream stream' host host' with
  | zero => exact .still twin
  | succ count ih =>
    simp only [skip]
    rw [Both.bind_iff]
    apply (advance_twin twin).mono
    rintro ⟨answer, after⟩ later ⟨answer', after'⟩ later' ⟨answer_eq, twin', onward, onward'⟩
    obtain rfl : answer = answer' := answer_eq.symm
    cases answer with
    | error error => exact ⟨rfl, twin', onward, onward'⟩
    | ok given =>
      cases given with
      | none => exact ⟨rfl, twin', onward, onward'⟩
      | some record => exact (ih twin').mono fun _ _ _ _ step => step.after onward onward'

variable [RecordSource σ α ε]

/-- With everything removed, closing tells what the source says. -/
theorem close_twin (independent : Independent (ε := ε) (α := α) σ) (twin : Twin host.disk host'.disk stream stream')
    (kept : stream.Kept host.disk) (kept' : stream'.Kept host'.disk) :
    Both (stream.close (ε := ε)) host (stream'.close (ε := ε)) host' fun result later result' later' =>
      result'.1 = result.1 ∧ Twin later.disk later'.disk result.2 result'.2 := by
  obtain ⟨⟨closed, source⟩, closes⟩ := independent.close stream.source
  have answered {stream : SortedStream σ α} {host : Host} (opened : stream.phase ≠ .closed)
      (kept : stream.Kept host.disk)
      (closes : ∀ host : Host, Ensures (RecordSource.close stream.source) host fun given later =>
        given = (closed, source) ∧ later.disk = host.disk) :
      Ensures (stream.close (ε := ε)) host fun result _ => result =
        (closed.mapError .input,
          { stream with phase := .closed, peeked := none, store := stream.store.emptied, source }) := by
    simp only [close]
    rw [Ensures.bind_iff]
    apply (SpillStore.close_spec kept.housed.files kept.removable).mono
    rintro result middle ⟨rfl, -⟩
    rw [Ensures.bind_iff]
    apply (closes middle).mono
    rintro result later ⟨rfl, -⟩
    cases closed with
    | error error => rfl
    | ok => rfl
  by_cases ended : stream.phase = .closed
  · simp only [close, ended, twin.phase.closed_iff.mpr ended]
    exact ⟨rfl, twin⟩
  · have both := Both.of_ensures (answered ended kept closes)
      (answered (ended ∘ twin.phase.closed_iff.mp) kept' (twin.source_eq ▸ closes))
    apply both.mono
    rintro result later result' later' ⟨rfl, rfl⟩
    exact ⟨rfl, .closed, twin.compare_eq, rfl, rfl, twin.remaining_eq⟩

/-- A call is answered the same by twins, and they stay twins. -/
theorem perform_twin (independent : Independent (ε := ε) (α := α) σ) (call : StreamCall)
    (twin : Twin host.disk host'.disk stream stream') (kept : stream.Kept host.disk) (kept' : stream'.Kept host'.disk) :
    Both (stream.perform (ε := ε) call) host (stream'.perform (ε := ε) call) host' fun result later result' later' =>
      result'.1 = result.1 ∧ Twin later.disk later'.disk result.2 result'.2 := by
  simp only [perform]
  cases call with
  | hasNext =>
    rw [Both.bind_iff]
    exact (hasNext_twin twin).mono fun _ _ _ _ step => ⟨congrArg StreamAnswer.more step.answer_eq, step.twin⟩
  | next =>
    rw [Both.bind_iff]
    exact (next_twin twin).mono fun _ _ _ _ step => ⟨congrArg StreamAnswer.next step.answer_eq, step.twin⟩
  | iterate =>
    rw [Both.bind_iff]
    exact (next_twin twin).mono fun _ _ _ _ step => ⟨congrArg StreamAnswer.iterated step.answer_eq, step.twin⟩
  | close =>
    rw [Both.bind_iff]
    exact (close_twin independent twin kept kept').mono fun _ _ _ _ outcome =>
      ⟨congrArg StreamAnswer.closed outcome.1, outcome.2⟩

end SortedStream

end SpillSort
