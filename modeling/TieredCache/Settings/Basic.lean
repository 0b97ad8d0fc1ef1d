import TieredCache.Fault
import TieredCache.Json.Fields

/-!
# Settings

The options of a cache, what is required of them, and their form in JSON.
-/

namespace TieredCache

open Json

/-- The options of a cache. -/
structure Settings where
  /-- How many entries tier 1 holds at most. -/
  memoryLimit : Nat
  /-- The directory of tier 2. -/
  directory : String
  /-- Whether a lookup hydrates what it finds. -/
  autoHydrate : Bool
  deriving DecidableEq, Repr

namespace Settings

/-- The memory limit unless another is given. -/
def defaultMemoryLimit : Nat := 100

/-- The greatest memory limit, the greatest word of 64 bits. -/
def maxMemoryLimit : Nat := 2 ^ 64 - 1

/-- The default settings, with a directory. -/
def new (directory : String) : Settings := ⟨defaultMemoryLimit, directory, true⟩

/-- Checks the limit first and the directory second. -/
def validate (settings : Settings) : Except Fault Unit :=
  if settings.memoryLimit = 0 then .error (.badSettings "memoryLimit must be at least 1")
  else if settings.directory.isEmpty then
    .error (.badSettings "storageDirectory must not be empty")
  else .ok ()

/-- The fields of settings in JSON. -/
def fieldNames : List String := ["memoryLimit", "storageDirectory", "autoHydrate"]

/-- The form of settings in JSON. -/
def toValue (settings : Settings) : Value :=
  .object (fieldNames.zip
    [.number (.whole settings.memoryLimit), .text settings.directory, .truth settings.autoHydrate])

/-- A field that keeps a default value when it is left out. -/
def field? {α : Type} (read : Outline → Option α) (default : α) (given : Option Outline) :
    Option α :=
  (given.map read).getD (some default)

/-- The settings of an outline. What it leaves out keeps its default. -/
def ofOutline? (defaults : Settings) (outline : Outline) : Option Settings :=
  match Fields.ofOutline? fieldNames outline with
  | some [memoryLimit, directory, autoHydrate] => do
    let memoryLimit ←
      field? (Outline.natural? maxMemoryLimit) defaults.memoryLimit memoryLimit
    let directory ← field? Outline.string? defaults.directory directory
    let autoHydrate ← field? Outline.truth? defaults.autoHydrate autoHydrate
    return ⟨memoryLimit, directory, autoHydrate⟩
  | _ => none

/-- The settings of a JSON text. -/
def read? (defaults : Settings) (bytes : Bytes) : Option Settings :=
  (Outline.read? bytes).bind (ofOutline? defaults)

end Settings

end TieredCache
