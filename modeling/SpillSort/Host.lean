import SpillSort.Disk.Basic

/-! # The host

What sorting acts on besides its own records: the temporary store, the log, and the memory and the threads
it asks for. They are values that are handed from step to step, so every effect of a step can be read off the
host it leaves.

A step that finds memory lacking does not come back, and neither do those that wait for it: what they would
have done next is left undone. A program that is killed by it never even comes to drop what it has, so the host
keeps the moment when it happened.
-/

namespace SpillSort

/-- How much a log record matters, the gravest first. -/
inductive LogLevel
  | error
  | warn
  | info
  | debug
  | trace
deriving DecidableEq, Repr, Inhabited

namespace LogLevel

def all : List LogLevel := [.error, .warn, .info, .debug, .trace]

def name : LogLevel → String
  | .error => "error"
  | .warn => "warn"
  | .info => "info"
  | .debug => "debug"
  | .trace => "trace"

/-- The name as log lines show it. -/
def label : LogLevel → String
  | .error => "ERROR"
  | .warn => "WARN"
  | .info => "INFO"
  | .debug => "DEBUG"
  | .trace => "TRACE"

def ofName? (name : String) : Option LogLevel := all.find? (·.name = name)

def gravity : LogLevel → Nat
  | .error => 0
  | .warn => 1
  | .info => 2
  | .debug => 3
  | .trace => 4

end LogLevel

structure LogRecord where
  level : LogLevel
  text : String
deriving DecidableEq, Repr, Inhabited

/-- The log line of a record. -/
def LogRecord.line (record : LogRecord) : String := record.level.label ++ " " ++ record.text

/-- The temporary store and the log so far. -/
structure Moment where
  disk : Disk
  log : Array LogRecord
deriving Repr, Inhabited

/-- The log lines up to a level. -/
def Moment.lines (moment : Moment) (level : LogLevel) : List String :=
  (moment.log.toList.filter (·.level.gravity ≤ level.gravity)).map LogRecord.line

/-- What steps act on. -/
structure Host extends Moment where
  /-- The moment when memory was first lacking, if it ever was. -/
  exhausted? : Option Moment
  /-- Why a pool of so many threads does not start, if it does not. -/
  poolFault? : Nat → Option String
deriving Inhabited

/-- A step that may use and change the host. -/
abbrev HostM (α : Type) := StateM Host α

namespace Host

/-- A host on which nothing has happened. -/
def start (disk : Disk) (poolFault? : Nat → Option String) : Host := ⟨⟨disk, #[]⟩, none, poolFault?⟩

/-- A host on which nothing has happened, and every pool of threads starts. -/
def fresh (disk : Disk) : Host := start disk fun _ => none

/-- Adds a record to the log. -/
def report (level : LogLevel) (text : String) : HostM Unit :=
  modify fun host => { host with log := host.log.push ⟨level, text⟩ }

/-- A step of the temporary store. -/
def onDisk {α : Type} (step : Disk → α × Disk) : HostM α :=
  modifyGet fun host =>
    let (answer, disk) := step host.disk
    (answer, { host with disk })

/-- Starts a pool of threads. The answer is why it does not start, if it does not. -/
def startPool (threads : Nat) : HostM (Option String) := return (← get).poolFault? threads

/-- The largest size that memory is looked for. A larger one is refused out of hand. -/
def addressLimit : Nat := 2 ^ 63 - 1

/-- Notes that there was no memory for a buffer. -/
def lackMemory (size : Nat) : HostM Unit :=
  modify fun host =>
    if size ≤ addressLimit ∧ host.exhausted?.isNone then
      { host with exhausted? := some host.toMoment }
    else host

end Host

/-- Errors that can be shown as a text. -/
class ErrorText (ε : Type) where
  message : ε → String

instance : ErrorText Empty := ⟨nofun⟩

instance : ErrorText FileError := ⟨FileError.message⟩

end SpillSort
