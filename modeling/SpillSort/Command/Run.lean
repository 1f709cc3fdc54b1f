import SpillSort.Command.Arguments
import SpillSort.Command.FileTree
import SpillSort.MessagePack.Layout
import SpillSort.Table.Writer

/-! # Sorting a table file into another

The input is read and sorted before the output is made, so the output may be the input. A failure ends
the program where it stands, and a stream that is open then is not closed. A lack of memory kills it.
-/

namespace SpillSort

/-- What a run leaves: its exit status, the lines it has logged, the files, and the temporary store. -/
structure Outcome where
  /-- There is none if the program was killed. -/
  status : Option UInt32
  lines : List String
  tree : FileTree
  disk : Disk
deriving Repr

namespace Command

/-- Why the program stops before its end. -/
inductive Stop
  /-- A failure that goes to the log. -/
  | failure (text : String)
  /-- A buffer that is refused out of hand. Nothing is logged. -/
  | bufferTooLarge
deriving DecidableEq, Repr

namespace Stop

/-- A failure with a text before its message. -/
def ofError {ε : Type} [ErrorText ε] (text : String) (error : ε) : Stop :=
  .failure (text ++ ": " ++ ErrorText.message error)

/-- How a failed sort stops the program. -/
def ofSortError : SortError TableError → Stop
  | .spillWrite (.bufferTooLarge _) => .bufferTooLarge
  | error => ofError "data sorting error" error

end Stop

/-- A step that may stop the program. -/
abbrev StepM (α : Type) := ExceptT Stop HostM α

/-- A step whose failure is logged with a text before it. -/
def stopping {ε α : Type} [ErrorText ε] (text : String) (step : HostM (Except ε α)) : StepM α :=
  ExceptT.mk (step.map (·.mapError (Stop.ofError text)))

/-- The last name of a path without its extension. -/
def stem (path : String) : String :=
  match ((FileTree.names path).filter (· ≠ ".")).getLast? with
  | none | some ".." => "features"
  | some name =>
    match Text.splitLast? '.' name.toList with
    | none | some ([], _) => name
    | some (before, _) => String.ofList before

/-- What reading the file of a path gives. -/
def openInput (tree : FileTree) (path : String) : Except FileError (List (Except FileError Bytes)) :=
  (tree.find path).map fun
    | .file [] | .sinkhole | .fullDevice => []
    | .file content => [.ok content]
    | .directory => [.error .isDirectory]

/-- Reads and sorts the input. -/
def sortInput (options : Options) (tree : FileTree) : StepM (SortedReader TableReader) := do
  let pieces ← stopping "input file opening error" (pure (openInput tree options.input))
  let reader ← stopping "input file reading error"
    (TableReader.new (stem options.input) (.ofPieces pieces))
  let sorter ← stopping "sorter initialization error"
    (Sorter.build (ε := TableError) options.sorter)
  let keys := ", ".intercalate (options.keys.map SortKey.text)
  Host.report .info s!"sorting {options.input} by {keys}"
  let sorted ← ExceptT.mk <|
    (·.mapError fun failure => Stop.ofSortError failure.error) <$>
      SortedReader.withSorter sorter Layout.feature.format reader options.keys .scalars
  Host.report .info s!"{sorted.stream.spilledRuns} runs spilled to disk"
  return sorted

/-- Writes the sorted features, and gives the output back also when that fails. -/
def save (options : Options) (sorted : SortedReader TableReader) (sink : FileSink) :
    HostM (Except Stop Unit × FileSink) := do
  let failing {ε : Type} [ErrorText ε] (text : String) (error : ε) (writer : TableWriter FileSink) :
      HostM (Except Stop Unit × FileSink) :=
    return (.error (.ofError text error), writer.records.sink)
  match TableWriter.new sink sorted.schema with
  | (.error error, writer) => failing "data saving error" error writer
  | (.ok (), writer) =>
    match ← modifyGet (Copy.run ⟨0, sorted, writer⟩) with
    | (.error (.reading error), copy) => failing "sorting stream error" error copy.writer
    | (.error (.writing error), copy) => failing "data saving error" error copy.writer
    | (.ok (), copy) =>
      let (closed, _) ← RecordSource.close copy.source
      if let .error error := closed then
        return ← failing "sorting stream closing error" error copy.writer
      match copy.writer.flush with
      | (.error error, writer) => failing "data flushing error" error writer
      | (.ok (), writer) =>
        Host.report .info s!"{copy.written} features written to {options.output}"
        return (.ok (), writer.records.sink)

/-- Logs why the program stops, and gives its exit status. -/
def exitStatus (answer : Except Stop Unit) : HostM UInt32 := do
  match answer with
  | .ok () => return 0
  | .error (.failure text) =>
    Host.report .error text
    return 1
  | .error .bufferTooLarge => return 101

/-- Sorts the input into the output. -/
def sortFile (options : Options) (tree : FileTree) : HostM (UInt32 × FileTree) := do
  match ← (sortInput options tree).run with
  | .error stop => return (← exitStatus (.error stop), tree)
  | .ok sorted =>
    match tree.create options.output with
    | .error error =>
      return (← exitStatus (.error (.ofError "output file creation error" error)), tree)
    | .ok (device, tree) =>
      let (saved, sink) ← save options sorted (.new device)
      return (← exitStatus saved, tree.store device sink.written)

/-- The temporary store of a run whose files are in a tree. -/
def temporaryStore (tree : FileTree) : Place → Disk
  | .standard => .empty
  | .named path =>
    { Disk.empty with refused := ((tree.refusal? path).map (.named path, ·)).toList }

/-- A log line as it is shown: what comes after a line break in it is indented. -/
def indented (line : String) : String :=
  String.ofList (line.toList.flatMap fun c => if c = '\n' then "\n    ".toList else [c])

/-- What a run leaves on a host: all that was done there, or if memory was lacking, only what was done
before that. -/
def outcomeOn (host : Host) (logLevel : Option LogLevel) (status : UInt32) (tree : FileTree) :
    Outcome :=
  let lines (moment : Moment) := ((logLevel.map moment.lines).getD []).map indented
  match host.exhausted? with
  | none => ⟨some status, lines host.toMoment, tree, host.disk⟩
  | some moment => ⟨none, lines moment, tree, moment.disk⟩

/-- Runs the program on its arguments, where pools of threads start or do not. -/
def runOn (poolFault? : Nat → Option String) (arguments : List String) (tree : FileTree) : Outcome :=
  match Options.read arguments with
  | .error .help => ⟨some 0, [], tree, .empty⟩
  | .error .usage => ⟨some 2, [], tree, .empty⟩
  | .ok options =>
    let ((status, tree), host) :=
      (sortFile options tree).run (.start (temporaryStore tree options.sorter.place) poolFault?)
    outcomeOn host options.logLevel status tree

/-- Runs the program on its arguments, where every pool of threads starts. -/
def run : List String → FileTree → Outcome := runOn fun _ => none

end Command

end SpillSort
