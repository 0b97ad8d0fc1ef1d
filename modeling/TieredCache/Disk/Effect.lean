import TieredCache.Disk.Basic

/-!
# Effects

What an operation changes on a disk, as a list of effects in their order. A disk on which only some of
the first effects have taken place is the disk after a crash.
-/

namespace TieredCache

/-- One change of a disk. -/
inductive Effect where
  | makeFolder (path : Path)
  /-- Puts an empty file at a free place. -/
  | createFile (path : Path)
  /-- Writes the contents of a file. -/
  | fillFile (path : Path) (bytes : Bytes)
  /-- Moves a file, over another one if there is one. -/
  | moveFile (source target : Path)
  | deleteFile (path : Path)
  deriving DecidableEq, Repr

namespace Disk

/-- A disk after one effect. -/
def apply (disk : Disk) : Effect → Disk
  | .makeFolder path => disk.set path .folder
  | .createFile path => disk.set path (.file [])
  | .fillFile path bytes => disk.set path (.file bytes)
  | .moveFile source target =>
    match disk.node? source with
    | some node => (disk.erase source).set target node
    | none => disk
  | .deleteFile path => disk.erase path

/-- A disk after a list of effects. -/
def perform (disk : Disk) (effects : List Effect) : Disk := effects.foldl apply disk

@[simp] theorem perform_nil (disk : Disk) : disk.perform [] = disk := rfl

@[simp] theorem perform_cons (disk : Disk) (effect : Effect) (effects : List Effect) :
    disk.perform (effect :: effects) = (disk.apply effect).perform effects := rfl

theorem perform_append (disk : Disk) (before after : List Effect) :
    disk.perform (before ++ after) = (disk.perform before).perform after := by
  simp [perform]

/-! ## Replacing a file -/

/-- The end of the name of a file that is still being written. -/
def temporaryEnd : List Char := ['.', 't', 'm', 'p']

/-- Whether a name is that of a file that was still being written. -/
def isTemporary (name : String) : Bool := temporaryEnd.isSuffixOf name.toList

/-- A name for a file that is being written. It is longer than every such name in its folder. -/
def temporaryName (names : List String) : String :=
  let longest := ((names.filter isTemporary).map String.length).foldl max 0
  String.ofList (temporaryEnd ++ List.replicate longest '0' ++ temporaryEnd)

/-- The effects that replace a file in a folder, or make it, in one step: its contents are written under
a temporary name first. A folder cannot be replaced. -/
def replacement (disk : Disk) (folder : Route) (name : String) (bytes : Bytes) :
    Except Refusal (List Effect) := do
  let place ← disk.folderAt folder
  let temporary := place ++ [temporaryName (disk.names place)]
  let replace (target : Path) : List Effect :=
    [.createFile temporary, .fillFile temporary bytes, .moveFile temporary target]
  match ← disk.locate (folder ++ [name]) with
  | .folder _ => .error .obstacle
  | .file target _ => .ok (replace target)
  | .vacant target => .ok (replace target)

/-- The effect that deletes a file. -/
def deletion (disk : Disk) (route : Route) : Except Refusal Effect :=
  (disk.fileAt route).map .deleteFile

/-! ## Making folders -/

/-- The effects that make the folders of a route from a place on, and whether that ends at a folder. -/
def foldersFrom (disk : Disk) : Path → Route → List Effect × Bool
  | _, [] => ([], true)
  | place, component :: route =>
    if component = "" ∨ component = "." then foldersFrom disk place route
    else if component = ".." then foldersFrom disk place.dropLast route
    else if Route.maxNameSize < component.utf8ByteSize then ([], false)
    else
      let next := place ++ [component]
      match disk.node? next with
      | some .folder => foldersFrom disk next route
      | some (.file _) => ([], false)
      | none =>
        let effect := Effect.makeFolder next
        let (effects, made) := foldersFrom (disk.apply effect) next route
        (effect :: effects, made)

/-- The effects that make a folder and the folders above it, and whether it is there afterwards. -/
def folders (disk : Disk) (route : Route) : List Effect × Bool :=
  if route.isLegal then disk.foldersFrom [] route else ([], false)

end Disk

end TieredCache
