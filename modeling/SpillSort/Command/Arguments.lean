import SpillSort.Command.ByteSize
import SpillSort.Sorter.Basic

/-! # Command line arguments

Every option takes one value, which may be attached to it or follow it. What begins with a dash is
taken for an option and never for a value that follows. The arguments are first cut into options and
values, where an unknown option, a free argument or a request for help ends the reading; only then are
the values read. An option that may be repeated may lack its value, if it has one elsewhere.
-/

namespace SpillSort

/-- The options of the command line. -/
inductive Switch
  | input
  | output
  | sort
  | pageSize
  | offset
  | limit
  | logLevel
  | threads
  | temporary
  | bufferSize
deriving DecidableEq, Repr

namespace Switch

def all : List Switch :=
  [.input, .output, .sort, .pageSize, .offset, .limit, .logLevel, .threads, .temporary, .bufferSize]

/-- The name after two dashes. -/
def long : Switch → String
  | .input => "input"
  | .output => "output"
  | .sort => "sort"
  | .pageSize => "page-size"
  | .offset => "offset"
  | .limit => "limit"
  | .logLevel => "loglevel"
  | .threads => "threads"
  | .temporary => "tmp-dir"
  | .bufferSize => "rw-buf-size"

/-- The letter after one dash, if the option has one. -/
def short? : Switch → Option Char
  | .input => some 'i'
  | .output => some 'o'
  | .sort => some 's'
  | .pageSize => some 'p'
  | .logLevel => some 'l'
  | .threads => some 't'
  | .temporary => some 'd'
  | .offset | .limit | .bufferSize => none

def ofLong? (name : List Char) : Option Switch := all.find? (·.long.toList = name)

def ofShort? (letter : Char) : Option Switch := all.find? (·.short? = some letter)

end Switch

/-- Why a command line asks for no sorting. -/
inductive Refusal
  | help
  | usage
deriving DecidableEq, Repr

/-- An argument that is no value of an option before it. -/
inductive Argument
  | complete (switch : Switch) (value : String)
  | awaiting (switch : Switch)
  /-- The mark after which only free arguments come. -/
  | endOfOptions
deriving DecidableEq, Repr

namespace Argument

def known (switch? : Option Switch) (value? : Option (List Char)) : Except Refusal Argument :=
  match switch?, value? with
  | none, _ => .error .usage
  | some switch, none => .ok (.awaiting switch)
  | some switch, some value => .ok (.complete switch (String.ofList value))

/-- An option with a long name, after its dashes. -/
def readLong (body : List Char) : Except Refusal Argument :=
  match Text.splitFirst? '=' body with
  | some (name, value) => known (Switch.ofLong? name) (some value)
  | none => if body = "help".toList then .error .help else known (Switch.ofLong? body) none

/-- An option of one letter with what is attached to it. -/
def readShort (letter : Char) (attached : List Char) : Except Refusal Argument :=
  if letter = 'h' then .error .help
  else known (Switch.ofShort? letter) <| match attached with
    | [] => none
    | '=' :: value => some value
    | value => some value

def read : List Char → Except Refusal Argument
  | ['-', '-'] => .ok .endOfOptions
  | '-' :: '-' :: body => readLong body
  | '-' :: letter :: attached => readShort letter attached
  | _ => .error .usage

/-- An argument that can be the value of an option before it. -/
def isValue : List Char → Bool
  | '-' :: _ :: _ => false
  | _ => true

/-- The options in order, each with its value if it has one. `waiting` is an option whose value may
come next. -/
def readAll (waiting : Option Switch) : List String → Except Refusal (List (Switch × Option String))
  | [] => .ok (waiting.map fun switch => (switch, none)).toList
  | text :: rest =>
    match waiting, isValue text.toList with
    | some switch, true => (readAll none rest).map ((switch, some text) :: ·)
    | _, _ => do
      let missing := (waiting.map fun switch => (switch, none)).toList
      match ← read text.toList with
      | .complete switch value => return missing ++ (switch, some value) :: (← readAll none rest)
      | .awaiting switch => return missing ++ (← readAll (some switch) rest)
      | .endOfOptions => if rest = [] then return missing else .error .usage

end Argument

/-- What a command line asks for. -/
structure Options where
  input : String
  output : String
  keys : List SortKey
  /-- The least grave records to show; nothing is shown without it. -/
  logLevel : Option LogLevel
  sorter : SorterOptions
deriving DecidableEq, Repr

namespace Options

/-- A number of the machine's word size. -/
def readCount? (text : String) : Option Nat := (Text.readNatural (2 ^ 64 - 1) text.toList).toOption

def readPageSize? (text : String) : Option Nat := (readCount? text).filter (· ≠ 0)

def readLevel? (text : String) : Option (Option LogLevel) :=
  if text = "off" then some none else (LogLevel.ofName? text).map some

/-- The values of an option, each where it was given. -/
def occurrences (given : List (Switch × Option String)) (switch : Switch) : List (Option String) :=
  (given.filter (·.1 = switch)).map (·.2)

/-- The value of an option that may be given once, or nothing if it was not given. -/
def value? {α : Type} (given : List (Switch × Option String)) (switch : Switch)
    (read? : String → Option α) : Option (Option α) :=
  match occurrences given switch with
  | [] => some none
  | [some text] => (read? text).map some
  | _ => none

def keys? (given : List (Switch × Option String)) : Option (List SortKey) :=
  match occurrences given .sort with
  | [] => some [.identifier .ascending]
  | occurrences =>
    match occurrences.filterMap id with
    | [] => none
    | texts => texts.mapM fun text => (SortKey.read text).toOption

/-- The options with all their values, if those are in order. -/
def ofGiven? (given : List (Switch × Option String)) : Option Options := do
  return {
    input := ← ← value? given .input some
    output := ← ← value? given .output some
    keys := ← keys? given
    logLevel := (← value? given .logLevel readLevel?).getD (some .info)
    sorter := {
      pageSize := (← value? given .pageSize readPageSize?).getD standardPageSize
      preallocate := false
      bufferSize := ← value? given .bufferSize ByteSize.read?
      threads := ← value? given .threads readCount?
      place := ((← value? given .temporary some).map Place.named).getD .standard
      offset := (← value? given .offset readCount?).getD 0
      limit := ← value? given .limit readCount? } }

/-- The options of a command line. -/
def read (arguments : List String) : Except Refusal Options := do
  match ofGiven? (← Argument.readAll none arguments) with
  | some options => return options
  | none => .error .usage

end Options

end SpillSort
