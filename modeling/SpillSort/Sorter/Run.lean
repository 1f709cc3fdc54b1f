import SpillSort.Merge
import SpillSort.Spill.Store

/-! # Runs being merged

A run is either the last page, which stays in memory, or a spilled run. Pulling a run takes at most
one record off a bound on its records, and exactly one if it gives a record. Merging keeps such a
bound for all runs together, so a merge of finitely many records ends.
-/

namespace SpillSort

/-- One for a record, zero for an error and for the end. -/
def recordCount {ε α : Type} : Option (Except ε α) → Nat
  | some (.ok _) => 1
  | _ => 0

/-! ## Spilled runs -/

namespace SpillReader

variable {α : Type}

theorem remaining_finish (reader : SpillReader α) (host : Host) :
    (reader.finish.run host).1.remaining = reader.remaining := by
  unfold finish
  split
  · simp only [StateT.run_bind]
    generalize (removeSpillFile reader.path).run host = result
    obtain ⟨answer, after⟩ := result
    cases answer <;> rfl
  · rfl

theorem remaining_readRecord (reader : SpillReader α) (file : BufferedFile) (disk : Disk)
    (more : reader.remaining ≠ 0) :
    (reader.readRecord file disk).2.remaining + recordCount (some (reader.readRecord file disk).1)
      = reader.remaining := by
  unfold readRecord
  split
  · rfl
  · split
    · rfl
    · exact Nat.sub_one_add_one more

theorem remaining_next (reader : SpillReader α) (host : Host) :
    (reader.next.run host).1.2.remaining + recordCount (reader.next.run host).1.1
      = reader.remaining := by
  unfold next
  split
  · exact reader.remaining_finish host
  · split
    · rfl
    · exact reader.remaining_readRecord _ host.disk ‹_›

end SpillReader

/-! ## Runs -/

/-- A sorted run. -/
inductive RunReader (α : Type)
  | memory (records : List α)
  | spilled (reader : SpillReader α)

namespace RunReader

variable {α : Type}

/-- The next record of a run, an error, or nothing at the end. -/
def pull : RunReader α → HostM (Option (Except SpillError α) × RunReader α)
  | .memory [] => return (none, .memory [])
  | .memory (record :: records) => return (some (.ok record), .memory records)
  | .spilled reader => do
    let (answer, reader) ← reader.next
    return (answer, .spilled reader)

/-- The records still to come, if none is damaged. -/
def bound : RunReader α → Nat
  | .memory records => records.length
  | .spilled reader => reader.remaining

theorem bound_pull (run : RunReader α) (host : Host) :
    (run.pull.run host).1.2.bound + recordCount (run.pull.run host).1.1 = run.bound := by
  match run with
  | .memory [] => rfl
  | .memory (_ :: _) => rfl
  | .spilled reader => exact reader.remaining_next host

end RunReader

/-! ## Merges -/

namespace Merger

variable {γ α ε : Type}

/-- The records on the frontier and those still in the inputs, by a size of inputs. -/
def bound (size : γ → Nat) (merger : Merger γ α ε) : Nat :=
  merger.heads.length + merger.inputs.foldr (size · + ·) 0

theorem length_insert (compare : Comparison α) (head : Head α) (heads : List (Head α)) :
    (Head.insert compare head heads).length = heads.length + 1 := by
  induction heads with
  | nil => rfl
  | cons other heads ih =>
    unfold Head.insert
    split
    · rfl
    · simp only [List.length_cons, ih]

theorem foldr_size_set (size : γ → Nat) (inputs : List γ) (index : Nat) (input other : γ)
    (found : inputs[index]? = some input) :
    (inputs.set index other).foldr (size · + ·) 0 + size input = inputs.foldr (size · + ·) 0 + size other := by
  induction inputs generalizing index with
  | nil => simp at found
  | cons first inputs ih =>
    cases index with
    | zero =>
      obtain rfl : first = input := by simpa using found
      simp only [List.set_cons_zero, List.foldr_cons]
      omega
    | succ index =>
      have tail := ih index (by simpa using found)
      simp only [List.set_cons_succ, List.foldr_cons]
      omega

variable (compare : Comparison α) {pull : γ → HostM (Option (Except ε α) × γ)} {size : γ → Nat}

theorem bound_refill
    (law : ∀ input host, size ((pull input).run host).1.2 + recordCount ((pull input).run host).1.1
      = size input)
    (merger : Merger γ α ε) (index : Nat) (host : Host) :
    (((merger.refill compare pull index).run host).1.2).bound size = merger.bound size := by
  unfold refill
  split
  · rfl
  · next input found =>
    have counted := law input host
    simp only [StateT.run_bind]
    generalize (pull input).run host = result at counted ⊢
    obtain ⟨⟨answer, after⟩, host'⟩ := result
    have total := foldr_size_set size merger.inputs index input after found
    match answer with
    | none =>
      change size after = size input at counted
      change merger.heads.length + (merger.inputs.set index after).foldr (size · + ·) 0 = _
      unfold bound
      omega
    | some (.error _) =>
      change size after = size input at counted
      change merger.heads.length + (merger.inputs.set index after).foldr (size · + ·) 0 = _
      unfold bound
      omega
    | some (.ok record) =>
      change size after + 1 = size input at counted
      change (Head.insert compare ⟨record, index⟩ merger.heads).length
        + (merger.inputs.set index after).foldr (size · + ·) 0 = _
      rw [length_insert]
      unfold bound
      omega

theorem bound_refillAll
    (law : ∀ input host, size ((pull input).run host).1.2 + recordCount ((pull input).run host).1.1
      = size input)
    (indices : List Nat) (merger : Merger γ α ε) (host : Host) :
    (((merger.refillAll compare pull indices).run host).1.2).bound size = merger.bound size := by
  induction indices generalizing merger host with
  | nil => rfl
  | cons index indices ih =>
    have first := bound_refill compare law merger index host
    unfold refillAll
    simp only [StateT.run_bind]
    generalize (merger.refill compare pull index).run host = result at first ⊢
    obtain ⟨⟨fault, after⟩, host'⟩ := result
    cases fault with
    | some error => exact first
    | none => exact (ih after host').trans first

theorem bound_seed
    (law : ∀ input host, size ((pull input).run host).1.2 + recordCount ((pull input).run host).1.1
      = size input)
    (merger : Merger γ α ε) (host : Host) :
    (((merger.seed compare pull).run host).1.2).bound size = merger.bound size := by
  unfold seed
  split
  · rfl
  · exact bound_refillAll compare law _ { merger with seeded := true } host

theorem bound_takeHead
    (law : ∀ input host, size ((pull input).run host).1.2 + recordCount ((pull input).run host).1.1
      = size input)
    (merger : Merger γ α ε) (host : Host) :
    (((merger.takeHead compare pull).run host).1.2).bound size
      + recordCount ((merger.takeHead compare pull).run host).1.1 = merger.bound size := by
  unfold takeHead
  split
  · rfl
  · next head heads found =>
    have refilled := bound_refill compare law { merger with heads } head.input host
    simp only [StateT.run_bind]
    generalize (refill compare pull { merger with heads } head.input).run host = result
      at refilled ⊢
    obtain ⟨⟨fault, last⟩, host'⟩ := result
    change last.bound size + 1 = merger.heads.length + merger.inputs.foldr (size · + ·) 0
    change last.bound size = heads.length + merger.inputs.foldr (size · + ·) 0 at refilled
    simp only [found, List.length_cons]
    omega

/-- Each record handed out was counted before and is not any more. -/
theorem bound_next
    (law : ∀ input host, size ((pull input).run host).1.2 + recordCount ((pull input).run host).1.1
      = size input)
    (merger : Merger γ α ε) (host : Host) :
    (((merger.next compare pull).run host).1.2).bound size
      + recordCount ((merger.next compare pull).run host).1.1 ≤ merger.bound size := by
  unfold next
  split
  · exact Nat.le_refl _
  · split
    · exact Nat.zero_le _
    · have seeded := bound_seed compare law merger host
      simp only [StateT.run_bind]
      generalize (merger.seed compare pull).run host = result at seeded ⊢
      obtain ⟨⟨fault, after⟩, host'⟩ := result
      cases fault with
      | some error => exact Nat.zero_le _
      | none => exact Nat.le_of_eq ((bound_takeHead compare law after host').trans seeded)

end Merger

end SpillSort
