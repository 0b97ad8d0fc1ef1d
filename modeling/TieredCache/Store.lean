import TieredCache.Archive.Recovery
import TieredCache.Flight
import TieredCache.Hydration
import TieredCache.Recent
import TieredCache.Settings.Basic
import TieredCache.Tally

/-!
# Stores

A cache of two tiers, and the disk that it keeps its archive on. Entries are written to tier 1 only; what
tier 1 evicts goes to tier 2 before the write is done.
-/

namespace TieredCache

/-- Makes a shorthand for reference paths, or fails. -/
abbrev Describer := List String → Option String

/-- An open cache. -/
structure Cache where
  recent : Recent
  archive : Archive
  tally : Tally
  /-- Whether a lookup hydrates what it finds. -/
  autoHydrate : Bool
  /-- Whether there is a resolver to ask. -/
  resolving : Bool
  /-- Makes the shorthand of an entry that is put without one. -/
  describer : Option Describer
  /-- The entries that callers are making anew. -/
  flights : Flights

/-- A cache, its disk, and what it has given notice of. -/
structure Store where
  disk : Disk
  cache : Cache
  /-- The notices, in order. -/
  notices : List Notice

/-- How many entries a clearing dropped from each tier. -/
structure Cleared where
  recentCount : Nat
  archiveCount : Nat
  deriving DecidableEq, Repr

/-- The form of a clearing in JSON. -/
def Cleared.toValue (cleared : Cleared) : Json.Value :=
  .object [("tier1Count", .number (.whole cleared.recentCount)),
    ("tier2Count", .number (.whole cleared.archiveCount))]

namespace Store

/-! ## Parts of operations -/

/-- Adds notices. -/
def note (store : Store) (notices : List Notice) : Store :=
  { store with notices := store.notices ++ notices }

/-- Replaces tier 1. -/
def withRecent (store : Store) (recent : Recent) : Store :=
  { store with cache := { store.cache with recent } }

/-- Replaces the flights. -/
def withFlights (store : Store) (flights : Flights) : Store :=
  { store with cache := { store.cache with flights } }

/-- Counts the ending of a lookup. -/
def count (store : Store) (ending : Ending) : Store :=
  { store with cache := { store.cache with tally := store.cache.tally.count ending } }

/-- Carries out what an operation on the archive does. -/
def carryOut {α : Type} (store : Store) (outcome : Outcome α) : Store :=
  { disk := store.disk.perform outcome.effects
    cache := { store.cache with archive := outcome.archive }
    notices := store.notices ++ outcome.notices }

/-- Keeps evicted entries in the archive, in order. -/
def spillAll (store : Store) (evicted : Keyed Entry) : Store :=
  evicted.foldl
    (fun store (key, entry) =>
      store.carryOut (store.cache.archive.spill store.disk key entry))
    store

/-! ## Opening -/

/-- Opens a cache on a disk. With it come the disk and the notices of opening. -/
def establish (disk : Disk) (settings : Settings) (resolving : Bool)
    (describer : Option Describer) : Disk × List Notice × Except Fault Cache :=
  match settings.validate with
  | .error fault => (disk, [], .error fault)
  | .ok _ =>
    let outcome := Archive.establish disk (Route.join [] settings.directory)
    let disk := disk.perform outcome.effects
    if outcome.answer then
      (disk, outcome.notices, .ok {
        recent := .empty settings.memoryLimit
        archive := outcome.archive
        tally := {}
        autoHydrate := settings.autoHydrate
        resolving, describer
        flights := [] })
    else (disk, outcome.notices, .error (.files "the storage directory cannot be made"))

/-! ## Writing -/

/-- The entry with the shorthand that the describer makes, if it has none. -/
def described (cache : Cache) (entry : Entry) : Entry :=
  if entry.hasShorthand then entry
  else
    match cache.describer.bind fun describer => describer entry.paths with
    | some shorthand => entry.describe shorthand
    | none => entry

/-- Writes an entry to tier 1 under its own key. -/
def putEntry (store : Store) (entry : Entry) : Except Fault (Entry × Store) := do
  Fault.checkKey entry.key
  let entry := described store.cache entry
  let (evicted, recent) := store.cache.recent.write entry.key entry
  return (entry, (store.spillAll evicted).withRecent recent)

/-- Writes a new entry to tier 1. -/
def put (store : Store) (key : String) (paths : List String) (params : Params) (now : Moment) :
    Except Fault (Entry × Store) :=
  store.putEntry { Entry.new key paths now with params }

/-! ## Removing -/

/-- Removes a key from both tiers. The answer is whether either held it. -/
def remove (store : Store) (key : String) : Except Fault (Bool × Store) := do
  Fault.checkKey key
  let (held, recent) := store.cache.recent.erase key
  let outcome := store.cache.archive.remove store.disk key
  return (held.isSome || outcome.answer, (store.withRecent recent).carryOut outcome)

/-- Drops all entries of tier 1, and those of tier 2 too unless told otherwise. -/
def clear (store : Store) (recentOnly : Bool) : Cleared × Store :=
  let (count, recent) := store.cache.recent.clear
  let store := store.withRecent recent
  if recentOnly then (⟨count, 0⟩, store)
  else
    let outcome := store.cache.archive.clear store.disk
    (⟨count, outcome.answer⟩, store.carryOut outcome)

/-! ## Upkeep -/

/-- Makes the index of tier 2 anew. The answer is how many keys it has. -/
def rebuildIndex (store : Store) : Nat × Store :=
  let outcome := store.cache.archive.rebuild store.disk
  (outcome.answer, store.carryOut outcome)

/-- The tally and the sizes of both tiers. -/
def statistics (store : Store) : Statistics :=
  ⟨store.cache.tally, store.cache.recent.size, store.cache.archive.size⟩

/-- Begins a new tally. -/
def resetTally (store : Store) : Store := { store with cache := { store.cache with tally := {} } }

end Store

end TieredCache
