import SpillSort.Command.Run

/-! # The program

The files that the arguments name are looked up, the run is computed from them, and its output and its
log are written. Everything between is free of effects.
-/

namespace SpillSort

/-- How the program is called. -/
def usage : String :=
  "usage: spillsort --input FILE --output FILE [--sort KEY]... [--page-size N] [--offset N]\n" ++
  "  [--limit N] [--loglevel LEVEL] [--threads N] [--tmp-dir DIRECTORY] [--rw-buf-size SIZE]"

/-- The text of a place. -/
def placeText (place : FilePlace) : String := "/".intercalate place.reverse

/-- What the system has at a place. -/
def lookUp (place : FilePlace) : IO (Option FileNode) := do
  let path := (← IO.currentDir) / placeText place
  if ← path.isDir then return some .directory
  if ! (← path.pathExists) then return none
  if let some device := FileTree.devices.lookup place then return some device
  if (← path.metadata).type == .file then
    return some (.file (← IO.FS.readBinFile path).toList)
  return some .sinkhole

/-- The places on the way of a path through a tree. -/
def placesOnWay (tree : FileTree) (path : String) : List FilePlace :=
  (List.range (FileTree.names path).length).map fun index =>
    ((FileTree.names path).take (index + 1)).foldl FileTree.step (tree.origin path)

/-- What the system has at all places that some options lead to. -/
def survey (options : Options) : IO FileTree := do
  let temporary := match options.sorter.place with
    | .standard => []
    | .named path => [path]
  let working := FileTree.placeOf (← IO.currentDir).toString
  let places := ([options.input, options.output] ++ temporary).flatMap
    (placesOnWay (.ofNodes working []))
  let found ← places.filterMapM fun place => return (← lookUp place).map (place, ·)
  return .ofNodes working found

/-- The exit status in place of one that a killed program would have had. -/
def killedStatus : UInt32 := 134

/-- Writes the files that a run has changed. -/
def writeNew (before after : FileTree) : IO Unit :=
  (FileTree.newFiles before after).forM fun (place, content) =>
    IO.FS.writeBinFile (placeText place) content.toByteArray

end SpillSort

open SpillSort in
/-- Runs the program. -/
def main (arguments : List String) : IO UInt32 := do
  match Options.read arguments with
  | .error .help => IO.println usage
  | .error .usage => IO.eprintln usage
  | .ok options =>
    let before ← survey options
    let outcome := Command.run arguments before
    outcome.lines.forM fun line => IO.eprintln line
    writeNew before outcome.tree
    return outcome.status.getD killedStatus
  return (Command.run arguments (.ofNodes [FileTree.root] [])).status.getD killedStatus
