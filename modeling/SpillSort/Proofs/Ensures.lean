import SpillSort.Host

/-! # What holds after a step

Steps act on a host that is handed on, so a statement about a step is one about its answer and the host
it leaves. A composed step is taken apart at its binds. Most steps write to the log, which nothing reads
again; a condition that only looks at the temporary store passes over them.
-/

namespace SpillSort

variable {α β : Type} {host : Host}

/-- The answer of a step and the host it leaves meet a condition. -/
def Ensures (step : HostM α) (host : Host) (post : α → Host → Prop) : Prop :=
  post (step.run host).1 (step.run host).2

theorem run_bind_of_run {first : HostM β} {rest : β → HostM α} {answer : β} {later : Host}
    (ran : first.run host = (answer, later)) : (first >>= rest).run host = (rest answer).run later := by
  rw [StateT.run_bind, ran]
  rfl

namespace Ensures

variable {post : α → Host → Prop}

theorem mono {step : HostM α} {weaker : α → Host → Prop} (ensured : Ensures step host post)
    (implies : ∀ answer later, post answer later → weaker answer later) : Ensures step host weaker :=
  implies _ _ ensured

theorem and {step : HostM α} {other : α → Host → Prop} (ensured : Ensures step host post)
    (also : Ensures step host other) : Ensures step host fun answer later => post answer later ∧ other answer later :=
  ⟨ensured, also⟩

/-- What is known of a step and its result separately. -/
theorem of_run {step : HostM α} {answer : α} {later : Host} (ensured : Ensures step host post)
    (ran : step.run host = (answer, later)) : post answer later := by
  unfold Ensures at ensured
  rwa [ran] at ensured

theorem run_iff {step : HostM α} {answer : α} {later : Host} (ran : step.run host = (answer, later)) :
    Ensures step host post ↔ post answer later := by
  unfold Ensures
  rw [ran]

theorem intro {step : HostM α} (ensured : ∀ answer later, step.run host = (answer, later) → post answer later) :
    Ensures step host post := ensured _ _ rfl

@[simp] theorem pure_iff {answer : α} : Ensures (pure answer) host post ↔ post answer host := Iff.rfl

theorem bind_iff {first : HostM β} {rest : β → HostM α} :
    Ensures (first >>= rest) host post ↔
      Ensures first host fun answer later => Ensures (rest answer) later post := Iff.rfl

@[simp] theorem map_iff {first : HostM β} {f : β → α} :
    Ensures (f <$> first) host post ↔ Ensures first host fun answer later => post (f answer) later := Iff.rfl

@[simp] theorem get_iff {post : Host → Host → Prop} :
    Ensures (get : HostM Host) host post ↔ post host host := Iff.rfl

@[simp] theorem onDisk_iff {step : Disk → α × Disk} :
    Ensures (Host.onDisk step) host post ↔ post (step host.disk).1 { host with disk := (step host.disk).2 } := Iff.rfl

/-- A step that only writes to the log or notes a lack of memory. -/
theorem report {post : Unit → Host → Prop} {level : LogLevel} {text : String}
    (ensured : ∀ later : Host, later.disk = host.disk → post () later) :
    Ensures (Host.report level text) host post := ensured _ rfl

/-- Whether something is written to the log makes no difference to what follows. -/
theorem reportIf {condition : Prop} [Decidable condition] {level : LogLevel} {text : String} {rest : Unit → HostM α}
    (ensured : ∀ later : Host, later.disk = host.disk → Ensures (rest ()) later post) :
    Ensures (if condition then Host.report level text >>= rest else rest ()) host post := by
  split
  · exact bind_iff.mpr (report ensured)
  · exact ensured host rfl

theorem startPool_iff {post : Option String → Host → Prop} {threads : Nat} :
    Ensures (Host.startPool threads) host post ↔ post (host.poolFault? threads) host := Iff.rfl

theorem lackMemory {post : Unit → Host → Prop} {size : Nat}
    (ensured : ∀ later : Host, later.disk = host.disk → post () later) :
    Ensures (Host.lackMemory size) host post := by
  apply ensured
  simp only [Host.lackMemory]
  change (if _ then _ else host : Host).disk = host.disk
  split <;> rfl

end Ensures

end SpillSort
