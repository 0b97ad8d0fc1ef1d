import TieredCache.Settings.Basic
import TieredCache.Text.Blank

/-!
# Settings from the environment

Three variables replace the options that they name; what is absent keeps its default. A memory limit
is an optional plus sign and decimal digits, and a truth value is one of eight words; both may have white
space around them. A directory is taken as it stands.
-/

namespace TieredCache

/-- The variables of an environment, by name. -/
abbrev Environment := String → Option String

namespace Environment

/-- A path inside a directory. -/
def inside (directory name : String) : String :=
  if directory.isEmpty || directory.endsWith "/" then directory ++ name
  else directory ++ "/" ++ name

end Environment

/-- The directories that a user has been given. -/
structure Places where
  /-- The directory for caches, if there is one. -/
  caches : Option String
  /-- The directory for temporary files. -/
  temporary : String
  deriving DecidableEq, Repr

/-- The directories that an environment tells of. A relative one in `XDG_CACHE_HOME` does not count, and without
a home directory there is none for caches. -/
def Environment.places (environment : Environment) : Places where
  caches :=
    match (environment "XDG_CACHE_HOME").filter (·.startsWith "/") with
    | some directory => some directory
    | none => ((environment "HOME").filter (!·.isEmpty)).map (inside · ".cache")
  temporary := (environment "TMPDIR").getD "/tmp"

namespace Settings

/-- The default settings of a user with given directories. -/
def defaultAt (places : Places) : Settings :=
  new (Environment.inside (places.caches.getD places.temporary) "artifact-cache")

/-- The default settings in an environment. -/
def default (environment : Environment) : Settings := defaultAt environment.places

/-- Digits of a decimal number, and at least one. -/
def number? (digits : List Char) : Option Nat :=
  if digits.isEmpty || !digits.all Char.isDigit then none
  else some (Nat.ofDigitChars 10 digits 0)

/-- The memory limit that a text states. -/
def memoryLimit? (text : String) : Option Nat :=
  let digits :=
    match Text.trim text.toList with
    | '+' :: rest => rest
    | characters => characters
  (number? digits).filter fun limit => decide (limit ≤ maxMemoryLimit)

/-- The words for yes. -/
def yesWords : List String := ["1", "true", "yes", "on"]

/-- The words for no. -/
def noWords : List String := ["0", "false", "no", "off"]

/-- The truth value that a text states, in letters of either case. -/
def switch? (text : String) : Option Bool :=
  let word := String.ofList ((Text.trim text.toList).map Char.toLower)
  if yesWords.contains word then some true
  else if noWords.contains word then some false
  else none

/-- Reads a variable, if it is set. -/
def override {α : Type} (read : String → Option α) (complaint name : String)
    (environment : Environment) (default : α) : Except Fault α :=
  match environment name with
  | none => .ok default
  | some text =>
    match read text with
    | some value => .ok value
    | none => .error (.badSettings (name ++ complaint ++ text))

/-- The default settings of a user with what the environment replaces, validated. -/
def ofEnvironmentAt (places : Places) (environment : Environment) : Except Fault Settings := do
  let defaults := defaultAt places
  let memoryLimit ←
    override memoryLimit? " is not a number: " "ARTIFACT_CACHE_MEMORY_LIMIT" environment
      defaults.memoryLimit
  let directory := (environment "ARTIFACT_CACHE_DIR").getD defaults.directory
  let autoHydrate ←
    override switch? " is not a boolean: " "ARTIFACT_CACHE_AUTO_HYDRATE" environment
      defaults.autoHydrate
  let settings : Settings := ⟨memoryLimit, directory, autoHydrate⟩
  settings.validate
  return settings

/-- The settings of an environment that tells of the directories itself. -/
def ofEnvironment (environment : Environment) : Except Fault Settings :=
  ofEnvironmentAt environment.places environment

end Settings

end TieredCache
