import TieredCache.Disk.Effect

/-!
# Edits

Changes of a disk that others make. An edit that the disk refuses changes nothing, save that folders
above an obstacle may have been made.
-/

namespace TieredCache.Disk

/-- Writes a file in a folder that is there. -/
def write? (disk : Disk) (route : Route) (bytes : Bytes) : Option Disk :=
  match disk.locate route with
  | .ok (.file path _) => some (disk.set path (.file bytes))
  | .ok (.vacant path) => some (disk.set path (.file bytes))
  | _ => none

/-- Makes a folder and those above it. -/
def makeFolders (disk : Disk) (route : Route) : Disk × Bool :=
  let (effects, made) := disk.folders route
  (disk.perform effects, made)

/-- Removes a file, or a folder with everything below it. -/
def remove? (disk : Disk) (route : Route) : Option Disk :=
  match disk.locate route with
  | .ok (.file path _) => some (disk.erase path)
  | .ok (.folder path) => some (disk.eraseTree path)
  | _ => none

/-- Copies a file. The target is emptied before the source is read, so a file copied to itself is lost. -/
def copy? (disk : Disk) (source target : Route) : Option Disk := do
  let _ ← (disk.fileAt source).toOption
  let disk ← disk.write? target []
  let bytes ← (disk.read source).toOption
  disk.write? target bytes

/-- The places below a folder. -/
def below (disk : Disk) (folder : Path) : List (Path × Node) :=
  disk.nodes.filter fun held => folder.isPrefixOf held.1 && held.1 != folder

end TieredCache.Disk
