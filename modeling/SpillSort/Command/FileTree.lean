import SpillSort.Table.Sink
import SpillSort.Text.Split

/-! # The files around the program

Files and directories by name, below the root. Places are lists of names, the last name first and that
of the root last. A path leads to a place step by step, from the root or from the working directory, and
every step but the last has to come to a directory.
-/

namespace SpillSort

/-- What is at a place. -/
inductive FileNode
  | file (content : Bytes)
  | directory
  /-- A device that is empty and forgets what is written to it. -/
  | sinkhole
  /-- A device that has no room for anything. -/
  | fullDevice
deriving DecidableEq, Repr, Inhabited

/-- The names that lead to a place, last name first. -/
abbrev FilePlace := List String

/-- The nodes at some places, and the place of the working directory. The root is there in any case. -/
structure FileTree where
  nodes : List (FilePlace × FileNode)
  working : FilePlace
deriving Repr, Inhabited

/-- What is written to. -/
inductive OutputDevice
  | file (place : FilePlace)
  | sinkhole
  | fullDevice
deriving DecidableEq, Repr

namespace FileTree

/-- The name of the root. -/
def root : String := "/"

/-- The devices that are always there. -/
def devices : List (FilePlace × FileNode) :=
  [(["null", "dev", root], .sinkhole), (["full", "dev", root], .fullDevice)]

/-- The places of the directories on the way to a place. -/
def above : FilePlace → List FilePlace
  | [] => []
  | _ :: place => place :: above place

/-- The tree of some nodes, the devices and the working directory, with the directories they are in. -/
def ofNodes (working : FilePlace) (nodes : List (FilePlace × FileNode)) : FileTree :=
  let present := nodes ++ (working, .directory) :: devices
  ⟨present ++ present.flatMap fun (place, _) => (above place).map (·, .directory), working⟩

/-- A path from the root, whatever the working directory. -/
def isAbsolute (path : String) : Bool := path.toList.head? = some '/'

/-- The names on the way of a path. -/
def names (path : String) : List String :=
  ((Text.splitAll '/' path.toList).map String.ofList).filter (· ≠ "")

/-- The place that a path from the root names. -/
def placeOf (path : String) : FilePlace := (names path).reverse ++ [root]

/-- The length of the path from the root to a place below it, in bytes. -/
def pathSize (place : FilePlace) : Nat := place.dropLast.foldr (·.utf8ByteSize + 1 + ·) 0

/-- A path that can only lead to a directory. -/
def endsInSlash (path : String) : Bool := path.toList.getLast? = some '/'

/-- The place one step further. There is nothing above the root. -/
def step (place : FilePlace) (name : String) : FilePlace :=
  if name = "." then place
  else if name = ".." then if place = [root] then place else place.tail
  else name :: place

/-- What is at a place. -/
def node? (tree : FileTree) (place : FilePlace) : Option FileNode :=
  if place = [root] then some .directory else tree.nodes.lookup place

/-- The place that a path starts from. -/
def origin (tree : FileTree) (path : String) : FilePlace :=
  if isAbsolute path then [root] else tree.working

/-- The longest name in a directory, in bytes. -/
def nameLimit : Nat := 255

/-- The longest path, in bytes. -/
def pathLimit : Nat := 4095

/-- The place that some steps lead to. Nothing has to be there. -/
def walk (tree : FileTree) (place : FilePlace) : List String → Except FileError FilePlace
  | [] => .ok place
  | name :: names =>
    match tree.node? place with
    | some .directory =>
      if name.utf8ByteSize ≤ nameLimit then walk tree (step place name) names
      else .error .nameTooLong
    | some _ => .error .notDirectory
    | none => .error .notFound

/-- The place that some steps lead to from the start of a path, unless the path is out of bounds. -/
def walkFrom (tree : FileTree) (path : String) (steps : List String) : Except FileError FilePlace :=
  if path = "" then .error .notFound
  else if pathLimit < path.utf8ByteSize then .error .nameTooLong
  else tree.walk (tree.origin path) steps

/-- The place of a path. Something is there, or it is in a directory. -/
def locate (tree : FileTree) (path : String) : Except FileError FilePlace :=
  tree.walkFrom path (names path)

/-- The place of the directory that the last name of a path is in. -/
def locateParent (tree : FileTree) (path : String) : Except FileError FilePlace :=
  tree.walkFrom path ((names path).dropLast ++ ["."])

/-- What a path leads to. -/
def find (tree : FileTree) (path : String) : Except FileError FileNode := do
  match tree.node? (← tree.locate path) with
  | none => .error .notFound
  | some node => if endsInSlash path ∧ node ≠ .directory then .error .notDirectory else .ok node

/-- The tree with another node at a place. -/
def put (tree : FileTree) (place : FilePlace) (node : FileNode) : FileTree :=
  { tree with nodes := (place, node) :: tree.nodes.filter (·.1 ≠ place) }

/-- Opens the file of a path for writing. A file that is there is emptied, one that is not is made. If
only a directory could be meant the last name is not looked at. -/
def create (tree : FileTree) (path : String) : Except FileError (OutputDevice × FileTree) := do
  if endsInSlash path then
    let _ ← tree.locateParent path
    .error .isDirectory
  else
    let place ← tree.locate path
    match tree.node? place with
    | some .directory => .error .isDirectory
    | some .sinkhole => .ok (.sinkhole, tree)
    | some .fullDevice => .ok (.fullDevice, tree)
    | some (.file _) | none => .ok (.file place, tree.put place (.file []))

/-- The tree once some bytes have been written to a device. -/
def store (tree : FileTree) (device : OutputDevice) (content : Bytes) : FileTree :=
  match device with
  | .file place => tree.put place (.file content)
  | .sinkhole | .fullDevice => tree

/-- The files of a tree that another one does not have, or has with another content. -/
def newFiles (before after : FileTree) : List (FilePlace × Bytes) :=
  after.nodes.filterMap fun
    | (place, .file content) =>
      if before.node? place = some (.file content) then none else some (place, content)
    | _ => none

/-- The length of the name of a temporary directory. -/
def temporaryNameSize : Nat := 19

/-- The length of the path of a temporary directory in the directory of a path. A path that does not
start at the root is put after that of the working directory. -/
def temporaryPathSize (tree : FileTree) (path : String) : Nat :=
  let before := if isAbsolute path then 0 else pathSize tree.working + 1
  let slash := if endsInSlash path then 0 else 1
  before + path.utf8ByteSize + slash + temporaryNameSize

/-- Why no temporary directory can be made in the directory of a path, if none can. The empty path is
the working directory. -/
def refusal? (tree : FileTree) (path : String) : Option FileError :=
  if path = "" then none
  else if pathLimit < tree.temporaryPathSize path then some .nameTooLong
  else match tree.find path with
    | .error error => some error
    | .ok .directory => none
    | .ok _ => some .notDirectory

end FileTree

/-- A file being written, through a buffer that keeps back less than its capacity. -/
structure FileSink where
  device : OutputDevice
  /-- What the device has been given. -/
  written : Bytes
  pending : Bytes
deriving DecidableEq, Repr

namespace FileSink

/-- The size of the buffer. -/
def capacity : Nat := 8192

/-- A file nothing has been written to. -/
def new (device : OutputDevice) : FileSink := ⟨device, [], []⟩

/-- Gives bytes to the device. -/
def pass (sink : FileSink) (bytes : Bytes) : Except FileError Unit × FileSink :=
  if sink.device = .fullDevice ∧ bytes ≠ [] then (.error .storageFull, sink)
  else (.ok (), { sink with written := sink.written ++ bytes })

/-- Empties the buffer. -/
def flush (sink : FileSink) : Except FileError Unit × FileSink :=
  match sink.pass sink.pending with
  | (.error error, sink) => (.error error, sink)
  | (.ok (), sink) => (.ok (), { sink with pending := [] })

/-- Takes bytes. The buffer is emptied first if they do not fit beside what is in it, and bytes that
would fill it go past it. -/
def write (sink : FileSink) (bytes : Bytes) : Except FileError Unit × FileSink :=
  let crowded := capacity < sink.pending.length + bytes.length
  match if crowded then sink.flush else (.ok (), sink) with
  | (.error error, sink) => (.error error, sink)
  | (.ok (), sink) =>
    if capacity ≤ bytes.length then sink.pass bytes
    else (.ok (), { sink with pending := sink.pending ++ bytes })

end FileSink

instance : Sink FileSink := ⟨FileSink.write, FileSink.flush⟩

end SpillSort
