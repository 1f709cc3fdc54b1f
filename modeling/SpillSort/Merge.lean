import SpillSort.Host
import SpillSort.Order

/-! # Merging sorted inputs

A merger holds one record of each input that has any left, its head, and hands out the least head. Of
heads that tie the one of the earlier input goes first, so inputs that are consecutive slices of a
stably sorted list are merged stably.

Inputs are pulled only when needed: every input once before the first record, and then the input
whose head was handed out. The first error of an input is told once, after the record whose
replacement it was met for, and then the merger has ended.
-/

namespace SpillSort

/-- The foremost record of an input. -/
structure Head (α : Type) where
  record : α
  input : Nat
deriving DecidableEq, Repr

namespace Head

variable {α : Type}

/-- The order of heads: by record, then by input. -/
def before (compare : Comparison α) (a b : Head α) : Bool :=
  ((compare a.record b.record).then (Ord.compare a.input b.input)).isLE

/-- Heads in order with one more among them. -/
def insert (compare : Comparison α) (head : Head α) : List (Head α) → List (Head α)
  | [] => [head]
  | other :: heads =>
    if head.before compare other then head :: other :: heads
    else other :: insert compare head heads

end Head

/-- The state of a merge: inputs of type `γ`, records of type `α` and errors of type `ε`. -/
structure Merger (γ α ε : Type) where
  inputs : List γ
  /-- The frontier, least head first. -/
  heads : List (Head α)
  /-- An error met while replacing the record handed out last. -/
  pending : Option ε
  seeded : Bool
  failed : Bool

namespace Merger

variable {γ α ε : Type}

/-- A merger that has not pulled anything yet. -/
def new (inputs : List γ) : Merger γ α ε := ⟨inputs, [], none, false, false⟩

/-- How many inputs are known to have records left; before the first pull, all of them. -/
def liveInputs (merger : Merger γ α ε) : Nat :=
  if merger.seeded then merger.heads.length else merger.inputs.length

/-- The ended merger. -/
def fail (merger : Merger γ α ε) : Merger γ α ε :=
  { merger with inputs := [], heads := [], pending := none, failed := true }

/-- Pulls one input and puts what it gives on the frontier. Answers with the input's error. -/
def refill (compare : Comparison α) (pull : γ → HostM (Option (Except ε α) × γ))
    (merger : Merger γ α ε) (index : Nat) : HostM (Option ε × Merger γ α ε) := do
  match merger.inputs[index]? with
  | none => return (none, merger)
  | some input =>
    let (answer, input) ← pull input
    let merger := { merger with inputs := merger.inputs.set index input }
    match answer with
    | none => return (none, merger)
    | some (.error error) => return (some error, merger)
    | some (.ok record) =>
      return (none, { merger with heads := Head.insert compare ⟨record, index⟩ merger.heads })

/-- Pulls some inputs in turn, up to the first error. -/
def refillAll (compare : Comparison α) (pull : γ → HostM (Option (Except ε α) × γ))
    (merger : Merger γ α ε) : List Nat → HostM (Option ε × Merger γ α ε)
  | [] => return (none, merger)
  | index :: indices => do
    match ← merger.refill compare pull index with
    | (some error, merger) => return (some error, merger)
    | (none, merger) => merger.refillAll compare pull indices

/-- Pulls every input once, if that has not been done. -/
def seed (compare : Comparison α) (pull : γ → HostM (Option (Except ε α) × γ))
    (merger : Merger γ α ε) : HostM (Option ε × Merger γ α ε) :=
  if merger.seeded then return (none, merger)
  else { merger with seeded := true }.refillAll compare pull (List.range merger.inputs.length)

/-- Hands out the least head and replaces it from its input. An error met there waits. -/
def takeHead (compare : Comparison α) (pull : γ → HostM (Option (Except ε α) × γ))
    (merger : Merger γ α ε) : HostM (Option (Except ε α) × Merger γ α ε) :=
  match merger.heads with
  | [] => return (none, merger)
  | head :: heads => do
    let (fault, merger) ← { merger with heads }.refill compare pull head.input
    return (some (.ok head.record), { merger with pending := fault })

/-- The next record, an error, or nothing at the end. -/
def next (compare : Comparison α) (pull : γ → HostM (Option (Except ε α) × γ))
    (merger : Merger γ α ε) : HostM (Option (Except ε α) × Merger γ α ε) := do
  if merger.failed then return (none, merger)
  if let some error := merger.pending then
    return (some (.error error), merger.fail)
  match ← merger.seed compare pull with
  | (some error, merger) => return (some (.error error), merger.fail)
  | (none, merger) => merger.takeHead compare pull

end Merger

/-- A list of answers as an input of a merger. -/
def pullList {α ε : Type} : List (Except ε α) → HostM (Option (Except ε α) × List (Except ε α))
  | [] => return (none, [])
  | answer :: answers => return (some answer, answers)

end SpillSort
