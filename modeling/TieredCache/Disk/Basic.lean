import TieredCache.Bytes
import TieredCache.Disk.Route

/-!
# Disks

A disk holds folders and files by their place below the root. Following a route ends at a folder, at a
file, at a free name in a folder, or at an obstacle.
-/

namespace TieredCache

/-- A place on a disk: the names from the root down to it. -/
abbrev Path := List String

/-- What stands at a place. -/
inductive Node where
  | folder
  | file (bytes : Bytes)
  deriving DecidableEq, Repr

/-- Folders and files by their place. The root is a folder that is not listed. -/
structure Disk where
  nodes : List (Path × Node)
  deriving Repr

/-- Why a disk does not do what it is asked. -/
inductive Refusal where
  /-- There is nothing there. -/
  | missing
  /-- Anything else. -/
  | obstacle
  deriving DecidableEq, Repr

/-- Where a route ends. -/
inductive Spot where
  | folder (path : Path)
  | file (path : Path) (bytes : Bytes)
  /-- The last name is free in its folder. -/
  | vacant (path : Path)
  deriving DecidableEq, Repr

namespace Disk

/-- A disk with nothing on it. -/
def empty : Disk := ⟨[]⟩

/-- What stands at a place. -/
def node? (disk : Disk) : Path → Option Node
  | [] => some .folder
  | path => disk.nodes.lookup path

/-- Puts something at a place, instead of what stands there. -/
def set (disk : Disk) (path : Path) (node : Node) : Disk :=
  if (disk.nodes.lookup path).isSome then
    ⟨disk.nodes.map fun held => if held.1 = path then (path, node) else held⟩
  else ⟨disk.nodes ++ [(path, node)]⟩

/-- Clears a place. -/
def erase (disk : Disk) (path : Path) : Disk := ⟨disk.nodes.filter fun held => held.1 != path⟩

/-- Clears a place and everything below it. -/
def eraseTree (disk : Disk) (path : Path) : Disk :=
  ⟨disk.nodes.filter fun held => !path.isPrefixOf held.1⟩

/-- The name of a place in a folder. -/
def nameIn? (folder path : Path) : Option String :=
  if path.dropLast = folder then path.getLast? else none

/-- The names in a folder. -/
def names (disk : Disk) (folder : Path) : List String :=
  disk.nodes.filterMap fun held => nameIn? folder held.1

/-- Follows a route from a folder. -/
def follow (disk : Disk) : Path → Route → Except Refusal Spot
  | place, [] => .ok (.folder place)
  | place, component :: route =>
    if component = "" ∨ component = "." then follow disk place route
    else if component = ".." then follow disk place.dropLast route
    else if Route.maxNameSize < component.utf8ByteSize then .error .obstacle
    else
      let next := place ++ [component]
      match disk.node? next with
      | some .folder => follow disk next route
      | some (.file bytes) =>
        if route.isEmpty then .ok (.file next bytes) else .error .obstacle
      | none => if route.isEmpty then .ok (.vacant next) else .error .missing

/-- Follows a route from the root. -/
def locate (disk : Disk) (route : Route) : Except Refusal Spot :=
  if route.isLegal then disk.follow [] route else .error .obstacle

/-! ## Reading -/

/-- The contents of a file. -/
def read (disk : Disk) (route : Route) : Except Refusal Bytes := do
  match ← disk.locate route with
  | .file _ bytes => .ok bytes
  | .folder _ => .error .obstacle
  | .vacant _ => .error .missing

/-- The place of a file. -/
def fileAt (disk : Disk) (route : Route) : Except Refusal Path := do
  match ← disk.locate route with
  | .file path _ => .ok path
  | .folder _ => .error .obstacle
  | .vacant _ => .error .missing

/-- The place of a folder. -/
def folderAt (disk : Disk) (route : Route) : Except Refusal Path := do
  match ← disk.locate route with
  | .folder path => .ok path
  | .file _ _ => .error .obstacle
  | .vacant _ => .error .missing

/-- The names in a folder. -/
def list (disk : Disk) (route : Route) : Except Refusal (List String) :=
  (disk.folderAt route).map disk.names

end Disk

end TieredCache
