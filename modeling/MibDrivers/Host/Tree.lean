import MibDrivers.Entries
import MibDrivers.Host.Basic
import MibDrivers.Text.Split
import MibDrivers.Text.Utf8

/-!
# Hosts with directories

A tree host has files and directories below one root, a working directory, and programs that
see the files. A path is looked up component by component; every component but the last has
to lead to a directory. Before a file is written, the directories above it are made. Paths and
names have a greatest length, and a null character is in neither. A file holds bytes, and its text
can be read only if they are one.

## Main definitions

* `FileTree` — files and directories
* `PathFault` — why a path leads nowhere
* `FileTree.locate` — the place to which a path leads
* `FileTree.write` — the tree with a file written
* `TreeHost.instHost` — the operations of a host with directories
-/

namespace MibDrivers

/-- The names on the way from a place up to the root. -/
abbrev Place := List String

/-- What is at a place. -/
inductive FileNode where
  | directory
  | file (content : List UInt8)
  deriving DecidableEq, Repr

/-- Why a path leads nowhere, or not to a text. -/
inductive PathFault where
  | missing
  | notDirectory
  | isDirectory
  | tooLong
  | notPassable
  | notText
  deriving DecidableEq, Repr

/-- What a host says about a path. -/
def PathFault.reason : PathFault → String
  | .missing => "No such file or directory"
  | .notDirectory => "Not a directory"
  | .isDirectory => "Is a directory"
  | .tooLong => "File name too long"
  | .notPassable => "file name contained an unexpected NUL byte"
  | .notText => "stream did not contain valid UTF-8"

/-- The number of a fault that a host reports with one. -/
def PathFault.code? : PathFault → Option Nat
  | .missing => some 2
  | .notDirectory => some 20
  | .isDirectory => some 21
  | .tooLong => some 36
  | .notPassable | .notText => none

/-- What a host says about a path, with the number of the fault. -/
def PathFault.message (fault : PathFault) : String :=
  match fault.code? with
  | some code => fault.reason ++ " (os error " ++ toString code ++ ")"
  | none => fault.reason

/-- The files and directories of a host. -/
structure FileTree where
  /-- What is at each place; there is always a directory at the root. -/
  nodes : Entries Place FileNode
  /-- The place where relative paths begin. -/
  working : Place
  deriving Repr

namespace FileTree

/-- What is at a place. -/
def node? (tree : FileTree) (place : Place) : Option FileNode :=
  match place with
  | [] => some .directory
  | _ => tree.nodes.lookup place

/-- The tree with something else at a place. -/
def put (tree : FileTree) (place : Place) (node : FileNode) : FileTree :=
  { tree with nodes := tree.nodes.put place node }

/-- The components of a path as written. -/
def components (path : String) : List String :=
  (Text.splitAt '/' path.toList).map String.ofList

/-- The place where a path begins. -/
def start (tree : FileTree) (path : String) : Place :=
  if path.toList.head? = some '/' then [] else tree.working

/-- The component stays where it is. -/
def stays (component : String) : Bool := component = "" || component = "."

/-! ### Paths -/

/-- The number of bytes that a path may have. -/
def maxPathLength : Nat := 4095

/-- The number of bytes that a name may have. -/
def maxNameLength : Nat := 255

/-- A text can be handed over as a path or an argument: no null character ends it early. -/
def isPassable (text : String) : Bool := !text.toList.contains (Char.ofNat 0)

/-- A path is short enough. -/
def fits (path : String) : Bool := path.utf8ByteSize ≤ maxPathLength

/-- Follows components from a place. Empty components and `.` stay, `..` leads up; each of
them, like a name, has to come from a directory. -/
def follow (tree : FileTree) (place : Place) : List String → Except PathFault Place
  | [] => .ok place
  | component :: rest =>
    if tree.node? place ≠ some .directory then .error .notDirectory
    else if stays component then follow tree place rest
    else if component = ".." then follow tree place.tail rest
    else if maxNameLength < component.utf8ByteSize then .error .tooLong
    else if (tree.node? (component :: place)).isSome then follow tree (component :: place) rest
    else .error .missing

/-- The place to which a path leads. -/
def locate (tree : FileTree) (path : String) : Except PathFault Place :=
  if !isPassable path then .error .notPassable
  else if !fits path then .error .tooLong
  else if path.isEmpty then .error .missing
  else tree.follow (tree.start path) (components path)

/-- What is at the end of a path. -/
def find (tree : FileTree) (path : String) : Except PathFault FileNode := do
  match tree.node? (← tree.locate path) with
  | some node => return node
  | none => throw .missing

/-- What the file at the end of a path holds. -/
def read (tree : FileTree) (path : String) : Except PathFault (List UInt8) := do
  match ← tree.find path with
  | .file content => return content
  | .directory => throw .isDirectory

/-- The text of the file at the end of a path. -/
def readText (tree : FileTree) (path : String) : Except PathFault String := do
  (Utf8.decode (← tree.read path)).mapError fun _ => .notText

/-! ### Writing -/

/-- Follows components from a place and makes the directories that are missing. It stops at
a file, and at a name that is too long. -/
def makeDirectories (tree : FileTree) (place : Place) :
    List String → FileTree × Option Place
  | [] => (tree, if tree.node? place = some .directory then some place else none)
  | component :: rest =>
    if tree.node? place ≠ some .directory then (tree, none)
    else if stays component then makeDirectories tree place rest
    else if component = ".." then makeDirectories tree place.tail rest
    else if maxNameLength < component.utf8ByteSize then (tree, none)
    else
      let child := component :: place
      let grown := if (tree.node? child).isSome then tree else tree.put child .directory
      makeDirectories grown child rest

/-- The path to the directory of a file, given the components above its name with the last
one first. -/
def parentPath (above : List String) : String :=
  String.intercalate "/" (above.dropWhile stays).reverse

/-- A file is first written under a name of ten bytes in the directory where it belongs. The
absolute path of that file is short enough. -/
def fitsBeside (tree : FileTree) (parent : String) : Bool :=
  let start := if parent.toList.head? = some '/' then [] else tree.working
  let length := start.foldl (fun length name => length + 1 + name.utf8ByteSize) 0
  length + 1 + parent.utf8ByteSize + 11 ≤ maxPathLength

/-- Writes a file after making the directories above it, unless the path to them cannot be
used. The last component has to be a name, and there must be no directory of that name.
Components at the end that stay where they are refuse the file, but the directories are
made. -/
def write (tree : FileTree) (path text : String) : FileTree × Bool :=
  let reversed := (components path).reverse
  match reversed.dropWhile stays with
  | [] => (tree, false)
  | last :: above =>
    let parent := parentPath above
    if !isPassable parent || !fits parent then (tree, false)
    else
      let (tree, place?) := tree.makeDirectories (tree.start path) above.reverse
      match place? with
      | none => (tree, false)
      | some place =>
        let isName := !reversed.head?.any stays && last ≠ ".." && isPassable last &&
          last.utf8ByteSize ≤ maxNameLength
        if !isName || !fits path || !tree.fitsBeside parent then (tree, false)
        else if tree.node? (last :: place) = some .directory then (tree, false)
        else (tree.put (last :: place) (.file (Utf8.encode text)), true)

end FileTree

/-- The state of a host with directories: its files, its programs by name, and the home directory of
its account. -/
structure TreeHost where
  tree : FileTree
  programs : List (String × (FileTree → List String → ProgramOutput)) := []
  accountHome : Option String := none

namespace TreeHost

/-- What a program leaves that gets arguments, unless it cannot be started with them. -/
def run? (host : TreeHost) (program : String) (args : List String) : Option ProgramOutput :=
  if (program :: args).all FileTree.isPassable then
    (host.programs.lookup program).map fun run => run host.tree args
  else none

instance instHost : Host (StateM TreeHost) where
  hasPath path := return ((← get).tree.find path).isOk
  readText path := return ((← get).tree.readText path).mapError PathFault.message
  writeText path text := do
    let host ← get
    let (tree, written) := host.tree.write path text
    set { host with tree }
    return written
  runProgram program args := return (← get).run? program args
  accountHome := return (← get).accountHome

end TreeHost

end MibDrivers
