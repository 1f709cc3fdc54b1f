import SpillSort.Proofs.Ensures
import SpillSort.Sorter.Calls

/-! # Steps that do not look at the log

Most steps do no more than look at the temporary store, change it and write to the log. What a stream answers, and
what it does on the temporary store, depends on the temporary store alone then: where two hosts have the same one,
with other logs or after another lack of memory, a step comes out the same. Such steps compose, so each step here
follows its definition.
-/

namespace SpillSort

variable {σ α β γ ε : Type}

/-- A step whose answer and whose effect on the temporary store depend only on the temporary store. -/
def LogFree (step : HostM α) : Prop :=
  ∀ host host' : Host, host.disk = host'.disk →
    (step.run host).1 = (step.run host').1 ∧ (step.run host).2.disk = (step.run host').2.disk

namespace LogFree

theorem pure (answer : α) : LogFree (Pure.pure answer) := fun _ _ same => ⟨rfl, same⟩

theorem bind {first : HostM β} {rest : β → HostM α} (free : LogFree first) (onward : ∀ answer, LogFree (rest answer)) :
    LogFree (first >>= rest) := by
  intro host host' same
  obtain ⟨answer_eq, same'⟩ := free host host' same
  simp only [StateT.run_bind]
  change ((rest (first.run host).1).run (first.run host).2).1 = ((rest (first.run host').1).run (first.run host').2).1 ∧
    ((rest (first.run host).1).run (first.run host).2).2.disk =
      ((rest (first.run host').1).run (first.run host').2).2.disk
  rw [answer_eq]
  exact onward _ _ _ same'

theorem report (level : LogLevel) (text : String) : LogFree (Host.report level text) := fun _ _ same => ⟨rfl, same⟩

theorem onDisk (step : Disk → α × Disk) : LogFree (Host.onDisk step) := by
  intro host host' same
  change (step host.disk).1 = (step host'.disk).1 ∧ (step host.disk).2 = (step host'.disk).2
  rw [same]
  exact ⟨rfl, rfl⟩

/-- Looking at the temporary store is not looking at the log. -/
theorem readDisk {rest : Disk → HostM α} (onward : ∀ disk, LogFree (rest disk)) :
    LogFree (get >>= fun host : Host => rest host.disk) := by
  intro host host' same
  change ((rest host.disk).run host).1 = ((rest host'.disk).run host').1 ∧
    ((rest host.disk).run host).2.disk = ((rest host'.disk).run host').2.disk
  rw [same]
  exact onward _ _ _ same

/-- Two runs of the step, each with what it ensures on its host. -/
theorem ensures {step : HostM α} {host host' : Host} (free : LogFree step) (post : α → Disk → Prop)
    (same : host.disk = host'.disk) (ensured : Ensures step host fun answer later => post answer later.disk) :
    Ensures step host' fun answer later => post answer later.disk := by
  obtain ⟨answer_eq, disk_eq⟩ := free host host' same
  change post _ _
  rw [← answer_eq, ← disk_eq]
  exact ensured

end LogFree

/-! ## Plain steps -/

/-- Steps made of looks at the temporary store, changes of it and log records. -/
inductive Plain : {α : Type} → HostM α → Prop
  | pure {α : Type} (answer : α) : Plain (Pure.pure answer)
  | bind {α β : Type} {first : HostM β} {rest : β → HostM α} :
    Plain first → (∀ answer, Plain (rest answer)) → Plain (first >>= rest)
  | report (level : LogLevel) (text : String) : Plain (Host.report level text)
  | onDisk {α : Type} (step : Disk → α × Disk) : Plain (Host.onDisk step)
  | readDisk {α : Type} {rest : Disk → HostM α} :
    (∀ disk, Plain (rest disk)) → Plain (get >>= fun host : Host => rest host.disk)

theorem Plain.logFree {step : HostM α} (plain : Plain step) : LogFree step := by
  induction plain with
  | pure answer => exact .pure answer
  | bind _ _ free onward => exact .bind free onward
  | report level text => exact .report level text
  | onDisk step => exact .onDisk step
  | readDisk _ onward => exact .readDisk onward

/-! ## Runs -/

theorem removeSpillFile_plain (path : SpillPath) : Plain (removeSpillFile path) := by
  simp only [removeSpillFile]
  refine .bind (.onDisk _) fun answer => ?_
  match answer with
  | .ok () => exact .bind (.report _ _) fun _ => .pure _
  | .error error => cases error <;> exact .pure _

namespace SpillReader

theorem finish_plain (reader : SpillReader α) : Plain reader.finish := by
  simp only [finish]
  split
  · refine .bind (removeSpillFile_plain reader.path) fun answer => ?_
    cases answer with
    | error error => exact .bind (.report _ _) fun _ => .pure _
    | ok => exact .bind (.report _ _) fun _ => .pure _
  · exact .pure _

theorem next_plain (reader : SpillReader α) : Plain reader.next := by
  simp only [next]
  split
  · exact .bind reader.finish_plain fun _ => .pure _
  · split
    · exact .pure _
    · next file _ =>
      exact Plain.readDisk fun disk => .pure (some (reader.readRecord file disk).1, (reader.readRecord file disk).2)

end SpillReader

theorem RunReader.pull_plain (run : RunReader α) : Plain run.pull := by
  match run with
  | .memory [] => exact .pure _
  | .memory (_ :: _) => exact .pure _
  | .spilled reader => exact .bind reader.next_plain fun _ => .pure _

namespace Merger

variable (compare : Comparison α) {pull : γ → HostM (Option (Except ε α) × γ)} (pulled : ∀ input, Plain (pull input))
include pulled

theorem refill_plain (merger : Merger γ α ε) (index : Nat) : Plain (merger.refill compare pull index) := by
  simp only [refill]
  split
  · exact .pure _
  · next input _ =>
    refine .bind (pulled input) fun result => ?_
    obtain ⟨answer, input'⟩ := result
    match answer with
    | none => exact .pure _
    | some (.error error) => exact .pure _
    | some (.ok record) => exact .pure _

theorem refillAll_plain (merger : Merger γ α ε) (indices : List Nat) :
    Plain (merger.refillAll compare pull indices) := by
  induction indices generalizing merger with
  | nil => exact .pure _
  | cons index indices ih =>
    simp only [refillAll]
    refine .bind (refill_plain compare pulled merger index) fun result => ?_
    obtain ⟨fault, merger'⟩ := result
    cases fault with
    | some error => exact .pure _
    | none => exact ih merger'

theorem takeHead_plain (merger : Merger γ α ε) : Plain (merger.takeHead compare pull) := by
  simp only [takeHead]
  split
  · exact .pure _
  · exact .bind (refill_plain compare pulled _ _) fun _ => .pure _

theorem next_plain (merger : Merger γ α ε) : Plain (merger.next compare pull) := by
  simp only [next]
  split
  · exact .pure _
  · split
    · exact .pure _
    · simp only [seed]
      refine .bind ?_ fun result => ?_
      · split
        · exact .pure _
        · exact refillAll_plain compare pulled _ _
      · obtain ⟨fault, merger'⟩ := result
        cases fault with
        | some error => exact .pure _
        | none => exact takeHead_plain compare pulled merger'

end Merger

theorem Phase.pull_plain (compare : Comparison α) (phase : Phase α) : Plain (phase.pull compare) := by
  match phase with
  | .memory [] => exact .pure _
  | .memory (_ :: _) => exact .pure _
  | .merging merger => exact .bind (Merger.next_plain compare RunReader.pull_plain merger) fun _ => .pure _
  | .exhausted => exact .pure _
  | .closed => exact .pure _

/-! ## Stores -/

namespace SpillStore

theorem removeAll_plain (paths : List SpillPath) : Plain (removeAll paths) := by
  induction paths with
  | nil => exact .pure _
  | cons path paths ih =>
    simp only [removeAll]
    refine .bind (removeSpillFile_plain path) fun first => .bind ih fun others => ?_
    cases first with
    | error error => exact .pure _
    | ok => exact .pure _

theorem close_plain (store : SpillStore) : Plain store.close := by
  unfold close disposeAll
  refine .bind (.bind (removeAll_plain store.live) fun _ => .pure _) fun result => ?_
  obtain ⟨disposed, store'⟩ := result
  dsimp only
  split
  · exact .pure _
  · refine .bind (.report _ _) fun _ => .bind (.onDisk _) fun removed => ?_
    cases removed with
    | error error => exact .pure _
    | ok => exact .pure _

theorem discard_plain (store : SpillStore) : Plain store.discard := by
  simp only [discard]
  refine .bind store.close_plain fun result => ?_
  obtain ⟨closed, store'⟩ := result
  cases closed with
  | error error => exact .bind (.report _ _) fun _ => .pure _
  | ok => exact .pure _

end SpillStore

/-! ## Streams -/

namespace SortedStream

theorem finish_plain (stream : SortedStream σ α) : Plain stream.finish := by
  simp only [finish]
  split
  · exact .pure _
  · exact .bind stream.store.discard_plain fun _ => .pure _

theorem settle_plain (stream : SortedStream σ α) (answer : Option (Except SpillError α)) :
    Plain (stream.settle (ε := ε) answer) := by
  match answer with
  | none => exact .bind stream.finish_plain fun _ => .pure _
  | some (.error error) => exact .bind (.report _ _) fun _ => .bind stream.finish_plain fun _ => .pure _
  | some (.ok record) =>
    simp only [settle]
    split
    · exact .bind (finish_plain _) fun _ => .pure _
    · exact .pure _

theorem advance_plain (stream : SortedStream σ α) : Plain (stream.advance (ε := ε)) := by
  simp only [advance]
  split
  · exact .pure _
  · split
    · exact .pure _
    · refine .bind (stream.phase.pull_plain stream.compare) fun result => ?_
      exact settle_plain { stream with phase := result.2 } result.1

theorem hasNext_plain (stream : SortedStream σ α) : Plain (stream.hasNext (ε := ε)) := by
  simp only [hasNext]
  split
  · exact .pure _
  · refine .bind stream.advance_plain fun result => ?_
    obtain ⟨answer, stream'⟩ := result
    cases answer with
    | error error => exact .pure _
    | ok peeked => exact .pure _

theorem next_plain (stream : SortedStream σ α) : Plain (stream.next (ε := ε)) := by
  simp only [next]
  split
  · exact .pure _
  · exact stream.advance_plain

theorem advance_logFree (stream : SortedStream σ α) : LogFree (stream.advance (ε := ε)) := stream.advance_plain.logFree

/-- A request for records does not look at the log. Closing may, since the source may. -/
theorem perform_logFree [RecordSource σ α ε] (stream : SortedStream σ α) {call : StreamCall} (asks : call ≠ .close) :
    LogFree (stream.perform (ε := ε) call) := by
  refine Plain.logFree ?_
  cases call with
  | hasNext => exact .bind stream.hasNext_plain fun _ => .pure _
  | next => exact .bind stream.next_plain fun _ => .pure _
  | iterate => exact .bind stream.next_plain fun _ => .pure _
  | close => exact absurd rfl asks

end SortedStream

end SpillSort
