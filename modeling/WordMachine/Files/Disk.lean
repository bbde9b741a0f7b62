import WordMachine.Files.Path
import WordMachine.Files.Store

/-!
# Disks

The files and directories that a command finds when it runs. `resolve` follows a path name by name
from the working directory or the root, and every name but the last must be that of a directory.
`host` is the disk as a command sees it.
-/

namespace WordMachine

/-- What a disk holds under a name. -/
inductive Node where
  | file (contents : Text)
  | directory
  deriving DecidableEq, Repr

/-- The names that lead to a file or directory from the working directory, the last one first;
`[root]` is the root, and places below it end in `root`. -/
abbrev Place := List Text

/-- What a host refuses. -/
inductive HostFault where
  | notFound | notDirectory | isDirectory | alreadyExists | nameTooLong | invalid
  deriving DecidableEq, Repr

/-- The words that report the fault. -/
def HostFault.message : HostFault → Text
  | .notFound => "no such file or directory"
  | .notDirectory => "not a directory"
  | .isDirectory => "is a directory"
  | .alreadyExists => "file exists"
  | .nameTooLong => "file name too long"
  | .invalid => "invalid argument"

/-- The failure of an `operation` on `paths`, with the words for the fault. -/
def HostFault.failure (fault : HostFault) (operation : Text) (paths : List Text) : Failure :=
  ⟨Text.join " " (operation :: paths) ++ ": " ++ fault.message⟩

/-- The operations of a host that commands use: reading files, and saving them in a directory. -/
structure Host (m : Type → Type) where
  openFile : Text → m (Except Failure Input)
  store : Text → FileStore m

/-- Files and directories by their places. -/
structure Disk where
  nodes : Table Place Node := {}

namespace Disk

/-- The longest name that a directory can hold, in bytes. -/
def maxName : Nat := 255

/-- A path of this many bytes or more is too long. -/
def maxPath : Nat := 4096

/-- The place of the root directory. -/
def rootPlace : Place := [Path.root]

/-- The parent of a place; the root is its own parent, and above the working directory it is
`up`. -/
def parent (place : Place) : Place :=
  if place == rootPlace then rootPlace
  else match place with
    | [] => [Path.up]
    | last :: rest => if last == Path.up then Path.up :: place else rest

/-- What is at a place; the working directory `[]`, the directories above it and the root are always
there. -/
def node? (d : Disk) (place : Place) : Option Node :=
  if place == rootPlace || place.all (· == Path.up) then some .directory
  else d.nodes.get? place

/-- Follows names from the directory at a place. Each name but the last must be that of a directory;
the last one need not exist. -/
def walk (d : Disk) : Place → List Text → Except HostFault Place
  | place, [] => .ok place
  | place, name :: names =>
    if name.isEmpty || name == Path.here then walk d place names
    else if name == Path.up then walk d (parent place) names
    else if name.length > maxName then .error .nameTooLong
    else if names.isEmpty then .ok (name :: place)
    else match d.node? (name :: place) with
      | none => .error .notFound
      | some (.file _) => .error .notDirectory
      | some .directory => walk d (name :: place) names

/-- The place that a path leads to, from the root if `isRooted path` and else from the working
directory. -/
def resolve (d : Disk) (path : Text) : Except HostFault Place :=
  if path.contains 0 then .error .invalid
  else if path.isEmpty then .error .notFound
  else if path.length ≥ maxPath then .error .nameTooLong
  else d.walk (if Path.isRooted path then rootPlace else []) (Path.names path)

/-- What `path` leads to, and where that is. -/
def find (d : Disk) (path : Text) : Except HostFault (Place × Option Node) :=
  (d.resolve path).map fun place => (place, d.node? place)

/-- The disk with a file with the `contents` at a place. -/
def write (d : Disk) (place : Place) (contents : Text) : Disk :=
  ⟨d.nodes.insert place (.file contents)⟩

/-- Opens a file for reading. A directory can be opened, and fails when it is read. -/
def openFile (d : Disk) (path : Text) : Except Failure Input :=
  match d.find path with
  | .error fault => .error (fault.failure "open" [path])
  | .ok (_, none) => .error (HostFault.notFound.failure "open" [path])
  | .ok (_, some (.file contents)) => .ok { bytes := contents }
  | .ok (_, some .directory) =>
    .ok { bytes := [], failure := some (HostFault.isDirectory.failure "read" [path]) }

/-- Makes an empty file at `path`, in place of any other file there. -/
def create (d : Disk) (path : Text) : Except Failure Disk :=
  match d.find path with
  | .error fault => .error (fault.failure "open" [path])
  | .ok (_, some .directory) => .error (HostFault.isDirectory.failure "open" [path])
  | .ok (place, _) => .ok (d.write place [])

/-- Gives the file at `path` its `contents`. -/
def fill (d : Disk) (path : Text) (contents : Text) : Disk :=
  match d.find path with
  | .ok (place, some (.file _)) => d.write place contents
  | _ => d

/-- Moves a file from `old` to `new`, in place of any other file there. -/
def rename (d : Disk) (old new : Text) : Except Failure Disk :=
  match d.find old, d.find new with
  | .error fault, _ => .error (fault.failure "rename" [old, new])
  | .ok (_, none), _ => .error (HostFault.notFound.failure "rename" [old, new])
  | _, .error fault => .error (fault.failure "rename" [old, new])
  | _, .ok (_, some .directory) => .error (HostFault.alreadyExists.failure "rename" [old, new])
  | .ok (source, some node), .ok (target, _) => .ok ⟨(d.nodes.erase source).insert target node⟩

/-- Deletes the file at `path`, if there is one. -/
def remove (d : Disk) (path : Text) : Disk :=
  match d.find path with
  | .ok (place, some (.file _)) => ⟨d.nodes.erase place⟩
  | _ => d

/-- The operations on the files of the directory `dir`. -/
def store (dir : Text) : FileStore (StateM Disk) where
  create name := do
    match (← get).create (Path.join dir name) with
    | .error failure => return .error failure
    | .ok d =>
      set d
      return .ok {}
  close name sink := do
    modify fun d => d.fill (Path.join dir name) sink.text
    return none
  rename old new := do
    match (← get).rename (Path.join dir old) (Path.join dir new) with
    | .error failure => return some failure
    | .ok d =>
      set d
      return none
  remove name := modify fun d => d.remove (Path.join dir name)

/-- The host that a disk is. -/
def host : Host (StateM Disk) where
  openFile path := return (← get).openFile path
  store := store

/-! ## Making disks -/

/-- The disk with a directory at a place and at all places above it, where there is nothing yet. -/
def makeDirs (d : Disk) : Place → Disk
  | [] => d
  | name :: place =>
    let d := makeDirs d place
    if (d.node? (name :: place)).isSome then d else ⟨d.nodes.insert (name :: place) .directory⟩

/-- The disk with a `node` at `path`, and with the directories that lead to it. -/
def add (d : Disk) (path : Text) (node : Node) : Disk :=
  match (Path.names path).foldl (Path.follow false) [] with
  | [] => d
  | name :: place => ⟨(d.makeDirs place).nodes.insert (name :: place) node⟩

/-- The nodes below the working directory, with their paths. -/
def toList (d : Disk) : List (Text × Node) :=
  (d.nodes.entries.filter fun e => !e.1.contains Path.up && !e.1.contains Path.root).map fun e =>
    (Text.join Path.root e.1.reverse, e.2)

end Disk

end WordMachine
