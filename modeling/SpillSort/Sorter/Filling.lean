import SpillSort.Page
import SpillSort.Sorter.Run
import SpillSort.Sorter.Error
import SpillSort.Source

/-! # Cutting a source into runs

A source is read to its end. Its records collect in a page, and each page that fills up is sorted and
spilled. What is left in the last page is sorted and stays in memory, be it nothing at all.
-/

namespace SpillSort

/-- How records are sorted and stored. -/
structure RunPlan (α : Type) where
  compare : Comparison α
  format : SpillFormat α
  pageSize : Nat

/-- The state of filling: what has been read and not spilled, and the runs spilled, oldest first. -/
structure Filling (σ α : Type) where
  source : σ
  store : SpillStore
  page : Page α
  runs : List SpillHandle

namespace Filling

variable {σ α ε : Type}

/-- A source of which nothing has been read. -/
def start (plan : RunPlan α) (source : σ) (store : SpillStore) : Filling σ α :=
  ⟨source, store, .empty plan.pageSize, []⟩

/-- Sorts and spills a page. -/
def spillPage (plan : RunPlan α) (store : SpillStore) (page : Page α) :
    HostM (Except (SortError ε) SpillHandle × SpillStore) := do
  Host.report .debug s!"sorting run data ({page.size} records) ..."
  let page := page.sort plan.compare
  Host.report .debug "saving run data"
  let (written, store) ← store.write plan.format page.toList
  return (written.mapError SortError.ofWrite, store)

/-- Takes one record, and spills the page if it is full then. -/
def accept (plan : RunPlan α) (filling : Filling σ α) (record : α) :
    HostM (Except (SortError ε) Unit × Filling σ α) := do
  let page := filling.page.offer record
  if page.isFull then
    match ← spillPage plan filling.store page with
    | (.error error, store) => return (.error error, { filling with store, page })
    | (.ok handle, store) =>
      return (.ok (),
        { filling with store, page := .empty plan.pageSize, runs := filling.runs ++ [handle] })
  else return (.ok (), { filling with page })

theorem source_accept (plan : RunPlan α) (filling : Filling σ α) (record : α) (host : Host) :
    ((accept (ε := ε) plan filling record).run host).1.2.source = filling.source := by
  unfold accept
  dsimp only
  split
  · simp only [StateT.run_bind]
    generalize (spillPage (ε := ε) plan filling.store (filling.page.offer record)).run host = result
    obtain ⟨⟨answer, store⟩, host'⟩ := result
    cases answer <;> rfl
  · rfl

/-- Reads the source to its end, or up to the first failure. -/
def readAll [RecordSource σ α ε] (plan : RunPlan α) (filling : Filling σ α) (host : Host) :
    (Except (SortError ε) Unit × Filling σ α) × Host :=
  match _read : (RecordSource.next filling.source).run host with
  | ((.error error, source), later) => ((.error (.input error), { filling with source }), later)
  | ((.ok none, source), later) => ((.ok (), { filling with source }), later)
  | ((.ok (some record), source), later) =>
    match _accepted : (accept (ε := ε) plan { filling with source } record).run later with
    | ((.error error, fuller), last) => ((.error error, fuller), last)
    | ((.ok (), fuller), last) => readAll plan fuller last
termination_by RecordSource.bound filling.source
decreasing_by
  have same := source_accept (ε := ε) plan { filling with source } record later
  rw [_accepted] at same
  exact same ▸ RecordSource.bound_lt _read

/-- Opens the spilled runs in order, each to delete its file when it is exhausted. -/
def openRuns (format : SpillFormat α) (store : SpillStore) :
    List SpillHandle → HostM (Except SpillError (List (RunReader α)))
  | [] => return .ok []
  | handle :: handles => do
    match ← store.openReader format handle with
    | .error error => return .error error
    | .ok reader =>
      return (← openRuns format store handles).map (.spilled reader.disposeOnExhaust :: ·)

/-- What filling ends with. -/
inductive Outcome (α : Type)
  /-- Everything fit in one page. -/
  | memory (records : List α)
  /-- The spilled runs in the order they were spilled, and the last page. -/
  | runs (readers : List (RunReader α))

/-- Sorts the last page and opens the runs. -/
def conclude (plan : RunPlan α) (filling : Filling σ α) :
    HostM (Except (SortError ε) (Outcome α)) := do
  let page := filling.page.sort plan.compare
  if filling.runs = [] then
    Host.report .debug
      s!"external sort preparation done, {page.size} records sorted in memory"
    return .ok (.memory page.toList)
  Host.report .debug <| "external sort preparation done, merging " ++
    s!"{filling.runs.length} spilled runs and {page.size} records in memory"
  match ← openRuns plan.format filling.store filling.runs with
  | .error error => return .error (.spillRead error)
  | .ok readers => return .ok (.runs (readers ++ [.memory page.toList]))

/-- Reads, cuts and spills a whole source, and gives the runs to be merged. -/
def run [RecordSource σ α ε] (plan : RunPlan α) (source : σ) (store : SpillStore) :
    HostM (Except (SortError ε) (Outcome α) × Filling σ α) := do
  match ← modifyGet (readAll plan (start plan source store)) with
  | (.error error, filling) => return (.error error, filling)
  | (.ok (), filling) => return (← filling.conclude plan, filling)

end Filling

end SpillSort
