import Backtest.Assoc
import Backtest.Files
import Backtest.Text

/-!
# Trees of files

A `FileTree` holds files and directories, each under the list of names that leads to it from the root.
A path is followed name by name: an empty name and `.` stay where they are, `..` goes up, and every
place on the way has to be a directory. Paths with and without a slash in front start at the root.

A file is opened and then written, and a `Device` may refuse the first step or stop in the second one. A file that
cannot be opened is left alone, but one that was opened has lost its bytes when the writing fails.
-/

namespace Backtest

/-- What stands at a place in a tree. -/
inductive FileTree.Node where
  | file (bytes : ByteArray)
  | directory

/-- Files and directories under the names that lead to them; the root is always a directory. -/
structure FileTree where
  nodes : Assoc (List String) FileTree.Node

namespace FileTree

def empty : FileTree := ⟨[]⟩

def node? (t : FileTree) (place : List String) : Option Node :=
  if place.isEmpty then some .directory else t.nodes.get? place

/-- The tree with a node at a place, whatever stood there before. -/
def put (t : FileTree) (place : List String) (node : Node) : FileTree :=
  ⟨t.nodes.put place node⟩

/-- The tree with directories at a place and at all places on the way to it, where there is nothing
yet. -/
def makeDirectories (t : FileTree) (place : List String) : FileTree :=
  (List.range (place.length + 1)).foldl
    (fun t n => if (t.node? (place.take n)).isNone then t.put (place.take n) .directory else t) t

/-- The tree without what stands at a place and below it. -/
def erase (t : FileTree) (place : List String) : FileTree :=
  ⟨t.nodes.filter fun n => !place.isPrefixOf n.1⟩

def names (path : String) : List String :=
  (Text.splitOn '/' path.toList).map String.ofList

/-- The longest name in bytes. -/
def maxName : Nat := 255

/-- The place to which names lead from a place on. Whether something stands there is left open. -/
def follow (t : FileTree) (place : List String) : List String → Except FileFault (List String)
  | [] => .ok place
  | name :: rest =>
    match t.node? place with
    | none => .error .notFound
    | some (.file _) => .error .notDirectory
    | some .directory =>
      if name = "" ∨ name = "." then t.follow place rest
      else if name = ".." then t.follow place.dropLast rest
      else if maxName < name.utf8ByteSize then .error .nameTooLong
      else t.follow (place ++ [name]) rest

/-- What stands at the end of a path, and where. -/
def find (t : FileTree) (path : String) : Except FileFault (List String × Node) :=
  if path.isEmpty then .error .notFound
  else if path.contains '\x00' then .error .zeroInPath
  else match t.follow [] (names path) with
    | .error fault => .error fault
    | .ok place =>
      match t.node? place with
      | some node => .ok (place, node)
      | none => .error .notFound

def read (t : FileTree) (path : String) : Except FileFault ByteArray :=
  match t.find path with
  | .ok (_, .file bytes) => .ok bytes
  | .ok (_, .directory) => .error .isDirectory
  | .error fault => .error fault

def list (t : FileTree) (path : String) : Except FileFault (List String) :=
  match t.find path with
  | .ok (place, .directory) =>
    .ok (t.nodes.filterMap fun n =>
      match n.1.getLast? with
      | some name => if n.1.dropLast == place then some name else none
      | none => none)
  | .ok (_, .file _) => .error .notDirectory
  | .error fault => .error fault

def isFile (t : FileTree) (path : String) : Bool :=
  match t.find path with
  | .ok (_, .file _) => true
  | _ => false

/-- The place of a file that is to be written at names: its directory has to be there, and the last
name must be a name of its own. -/
def target (t : FileTree) (ns : List String) : Except FileFault (List String) := do
  let own := (ns.reverse.dropWhile (· == "")).reverse
  let directory ← t.follow [] own.dropLast
  match t.node? directory, own.getLast? with
  | none, _ => throw .notFound
  | some (.file _), _ => throw .notDirectory
  | some .directory, none => throw .isDirectory
  | some .directory, some name =>
    if own.length < ns.length ∨ name = "." ∨ name = ".." then throw .isDirectory
    if maxName < name.utf8ByteSize then throw .nameTooLong
    let place := directory ++ [name]
    match t.node? place with
    | some .directory => throw .isDirectory
    | _ => return place

/-- Opens a file at a path for writing: its place, and the tree with an empty file there, whatever bytes
the file had before. -/
def openFile (t : FileTree) (path : String) : Except FileFault (List String × FileTree) := do
  if path.isEmpty then throw .notFound
  if path.contains '\x00' then throw .zeroInPath
  let place ← t.target (names path)
  return (place, t.put place (.file .empty))

/-- What a device does with a file that is to be written. -/
structure Device where
  /-- The fault with which it refuses to open a file at a path. -/
  refuse? : String → Option FileFault
  /-- How many of the bytes that are written into an open file it takes before it meets a fault, if it does not
  take them all. -/
  stop? : ByteArray → Option (Nat × FileFault)

/-- A device that opens every file, with room for everything. -/
def Device.roomy : Device := ⟨fun _ => none, fun _ => none⟩

/-- Writes a file at a path: opens it, and gives the bytes to the device. What the device took stays in
the file, also if it did not take everything. -/
def write (t : FileTree) (device : Device) (path : String) (bytes : ByteArray) :
    Except FileFault Unit × FileTree :=
  match device.refuse? path, t.openFile path with
  | some fault, _ => (.error fault, t)
  | none, .error fault => (.error fault, t)
  | none, .ok (place, opened) =>
    match device.stop? bytes with
    | none => (.ok (), opened.put place (.file bytes))
    | some (taken, fault) => (.error fault, opened.put place (.file (bytes.extract 0 taken)))

/-- What a program sees of a tree. -/
def disk (t : FileTree) : Disk := ⟨t.read, t.list, t.isFile⟩

end FileTree

end Backtest
