import TieredCache.Calls
import TieredCache.Proofs.Store.Share

/-!
# Opening a store

A store that is opened in an empty directory is tidy and holds nothing. One that is opened where a
tidy store was left has its archive.
-/

namespace TieredCache

/-- A route that leads to a folder with nothing in it, and is short enough for records. -/
structure Disk.Vacant (disk : Disk) (root : Route) (home : Path) : Prop where
  found : disk.locate root = .ok (.folder home)
  short : root.size + 54 ≤ Route.maxSize
  empty : ∀ path, path ≠ [] → disk.node? (home ++ path) = none

namespace Disk.Vacant

variable {disk : Disk} {root : Route} {home : Path}

theorem leads (vacant : disk.Vacant root home) : Disk.Leads disk [] root home := by
  have found := vacant.found
  rw [Disk.locate] at found
  split at found
  · exact Disk.follow_eq_folder.1 found
  · cases found

theorem legal (vacant : disk.Vacant root home) (key : String) :
    Route.isLegal (root ++ ["records"] ++ [recordName key]) = true := by
  have found := vacant.found
  rw [Disk.locate] at found
  split at found
  · rename_i legal
    exact Archive.isLegal_record legal vacant.short key
  · cases found

end Disk.Vacant

/-- A disk on which there is only the directory of a cache. -/
def Disk.bare : Disk := ⟨[(["cache"], .folder)]⟩

theorem Disk.vacant_bare : Disk.bare.Vacant (Route.join [] "cache") ["cache"] := by
  refine ⟨rfl, by decide +kernel, fun path below => ?_⟩
  obtain ⟨name, path, rfl⟩ := List.exists_cons_of_ne_nil below
  rfl

/-- Two keys whose records have names of their own. -/
def twoKeys (key : String) : Prop := key = "k" ∨ key = "x"

theorem distinct_twoKeys : DistinctNames twoKeys := by
  have apart : recordName "k" ≠ recordName "x" := by decide +kernel
  rintro left right (rfl | rfl) (rfl | rfl) same
  · rfl
  · exact absurd same apart
  · exact absurd same.symm apart
  · rfl

/-- The share of a key that a store knows nothing of. -/
def Share.bare : Share := ⟨none, none, none⟩

namespace Store

/-- What opening with given settings sets up. -/
def Setup.ofSettings (settings : Settings) (resolving : Bool) (describer : Option Describer) : Setup :=
  ⟨Route.join [] settings.directory, settings.autoHydrate, resolving, describer⟩

variable {disk : Disk} {settings : Settings} {home : Path}

/-- A store opens with valid settings only. -/
theorem valid_of_opened {resolving : Bool} {describer : Option Describer} {store : Store}
    (opens : opened disk settings resolving describer = .ok store) :
    settings.validate = .ok () := by
  unfold opened establish at opens
  cases valid : settings.validate with
  | ok _ => rfl
  | error fault =>
      rw [valid] at opens
      cases opens

/-- The cache that settings open on an archive, before anything is kept in tier 1. -/
def newCache (settings : Settings) (archive : Archive) (resolving : Bool) (describer : Option Describer) :
    Cache where
  recent := .empty settings.memoryLimit
  archive := archive
  tally := {}
  autoHydrate := settings.autoHydrate
  resolving := resolving
  describer := describer
  flights := []

/-- A cache that is opened is new, and has the archive in its directory. -/
theorem establish_ok {resolving : Bool} {describer : Option Describer} {after : Disk}
    {notices : List Notice} {cache : Cache}
    (made : establish disk settings resolving describer = (after, notices, .ok cache)) :
    let outcome := Archive.establish disk (Route.join [] settings.directory)
    outcome.answer = true ∧ after = disk.perform outcome.effects ∧
      cache = newCache settings outcome.archive resolving describer := by
  unfold establish at made
  split at made
  · cases made
  · dsimp only at made
    split at made
    · rename_i answer
      cases made
      exact ⟨answer, rfl, rfl⟩
    · cases made

theorem opened_ok {resolving : Bool} {describer : Option Describer} {store : Store}
    (opens : opened disk settings resolving describer = .ok store) :
    let outcome := Archive.establish disk (Route.join [] settings.directory)
    outcome.answer = true ∧ store.disk = disk.perform outcome.effects ∧
      store.cache = newCache settings outcome.archive resolving describer := by
  unfold opened at opens
  split at opens
  · rename_i made
    cases opens
    exact establish_ok made
  · cases opens

/-- A store opens in an empty directory, and holds nothing. -/
theorem opened_vacant (vacant : disk.Vacant (Route.join [] settings.directory) home)
    (valid : settings.validate = .ok ()) (known : String → Prop) (resolving : Bool)
    (describer : Option Describer) :
    ∃ store, opened disk settings resolving describer = .ok store ∧ store.Tidy known home ∧
      store.setup = .ofSettings settings resolving describer ∧ ∀ key, store.share key = .bare := by
  obtain ⟨answer, root, kept, shelves⟩ :=
    Archive.establish_empty known vacant.leads vacant.legal vacant.empty
  have established : opened disk settings resolving describer = .ok
      { disk := disk.perform (Archive.establish disk (Route.join [] settings.directory)).effects
        cache :=
          { recent := .empty settings.memoryLimit
            archive := (Archive.establish disk (Route.join [] settings.directory)).archive
            tally := {}
            autoHydrate := settings.autoHydrate
            resolving, describer
            flights := [] }
        notices := (Archive.establish disk (Route.join [] settings.directory)).notices } := by
    simp only [opened, establish, valid, answer, if_true]
  refine ⟨_, established, ⟨kept, List.nodup_nil, ?_⟩, ?_, fun key => ?_⟩
  · intro key entry found
    cases found
  · simp only [setup, root, Setup.ofSettings]
  · simp only [share, shelves, Share.bare]
    rfl

/-- A store that has just been opened on the bare disk, with room for one entry. -/
def small : Store where
  disk := ⟨[(["cache"], .folder), (["cache", "records"], .folder),
    (["cache", "index.json"], .file (Index.write []))]⟩
  cache :=
    { recent := .empty 1
      archive := ⟨["cache"], []⟩
      tally := {}
      autoHydrate := true
      resolving := false
      describer := none
      flights := [] }
  notices := []

theorem opened_small : opened .bare ⟨1, "cache", true⟩ false none = .ok small := rfl

end Store

end TieredCache
