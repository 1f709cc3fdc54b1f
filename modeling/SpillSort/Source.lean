import SpillSort.Host

/-! # Record sources

A source gives records one at a time and has to be closed in the end. Every source is finite: it
bounds the number of records still to come, and each record it gives lowers the bound. Nothing is
said of what a source does after its end, after an error or after it was closed.
-/

namespace SpillSort

/-- Sources of type `σ`, with records of type `α` and errors of type `ε`. -/
class RecordSource (σ : Type) (α ε : outParam Type) where
  /-- The next record, or nothing at the end. -/
  next : σ → HostM (Except ε (Option α) × σ)
  /-- Releases what the source holds. -/
  close : σ → HostM (Except ε Unit × σ)
  /-- A bound on the records still to come. -/
  bound : σ → Nat
  /-- Every record lowers the bound. -/
  bound_lt : ∀ {source source' : σ} {record : α} {host host' : Host},
    (next source).run host = ((.ok (some record), source'), host') → bound source' < bound source

/-- A source that plays back a list of read results. A closing that fails does so with `closeError`;
closing changes nothing else. -/
structure Script (α ε : Type) where
  reads : List (Except ε α)
  closeError : Option ε

namespace Script

variable {α ε : Type}

/-- Records without a failure. -/
def ofRecords (records : List α) : Script α ε := ⟨records.map .ok, none⟩

def next (script : Script α ε) : Except ε (Option α) × Script α ε :=
  match script.reads with
  | [] => (.ok none, script)
  | .error error :: reads => (.error error, { script with reads })
  | .ok record :: reads => (.ok (some record), { script with reads })

def close (script : Script α ε) : Except ε Unit × Script α ε :=
  match script.closeError with
  | none => (.ok (), script)
  | some error => (.error error, script)

theorem length_lt_of_next {script script' : Script α ε} {record : α}
    (read : script.next = (.ok (some record), script')) :
    script'.reads.length < script.reads.length := by
  obtain ⟨reads, closeError⟩ := script
  cases reads with
  | nil => simp [next] at read
  | cons first reads =>
    cases first with
    | error error => simp [next] at read
    | ok value =>
      simp only [next, Prod.mk.injEq] at read
      rw [← read.2]
      exact Nat.lt_succ_self _

end Script

instance {α ε : Type} : RecordSource (Script α ε) α ε where
  next script := pure script.next
  close script := pure script.close
  bound script := script.reads.length
  bound_lt read := Script.length_lt_of_next (congrArg Prod.fst read)

/-- A source that counts how often it is closed. -/
structure Counted (σ : Type) where
  source : σ
  closes : Nat

instance {σ α ε : Type} [RecordSource σ α ε] : RecordSource (Counted σ) α ε where
  next counted := do
    let (answer, source) ← RecordSource.next counted.source
    return (answer, { counted with source })
  close counted := do
    let (answer, source) ← RecordSource.close counted.source
    return (answer, ⟨source, counted.closes + 1⟩)
  bound counted := RecordSource.bound counted.source
  bound_lt {counted counted' record host host'} read := by
    simp only [StateT.run_bind, StateT.run_pure] at read
    generalize step : (RecordSource.next counted.source).run host = result at read
    obtain ⟨⟨answer, source⟩, after⟩ := result
    have parts := Prod.mk.injEq .. ▸ read
    obtain ⟨pair, rfl⟩ := parts
    obtain ⟨rfl, rfl⟩ := Prod.mk.injEq .. ▸ pair
    exact RecordSource.bound_lt step

end SpillSort
