import TieredCache.Disk.Edit
import TieredCache.Proofs.Lookup.Overlapped

/-!
# Index and records in step

The index in memory, the file of the index and the folder of records tell the same of every store that
can come about. So the index can be made anew at any time, and opening the cache again loses nothing.
-/

namespace TieredCache

open Archive

/-! ## In step -/

namespace Archive

/-- The index, its file and the records say the same, and nothing is left of files that were still being
written. -/
structure InStep (archive : Archive) (disk : Disk) : Prop where
  /-- The file of the index is read as the index in memory. -/
  saved : ∃ bytes, disk.read archive.indexFile = .ok bytes ∧ Index.read? bytes = some archive.index
  distinct : archive.index.keys.Nodup
  named : ∀ key name, archive.index.get? key = some name → name = recordName key
  /-- The files in the folder of records are those that the index names. -/
  listed : ∃ names, disk.list archive.records = .ok names ∧
    ∀ name, name ∈ names ↔ ∃ key, archive.index.get? key = some name
  /-- Each of them is the record of an entry of its key. -/
  recorded : ∀ key name, archive.index.get? key = some name → ∃ entry : Entry, entry.key = key ∧
    disk.read (archive.place name) = .ok entry.record ∧ embeddedKey? entry.record = some key
  swept : ∀ folder ∈ [archive.root, archive.records], ∃ names, disk.list folder = .ok names ∧
    ∀ name ∈ names, Disk.isTemporary name = false

variable {known : String → Prop} {archive : Archive} {disk : Disk} {home : Path}

theorem Tidy.mem_names_records (tidy : archive.Tidy known disk home) {name : String} :
    name ∈ disk.names (recordsAt home) ↔ ∃ key, archive.index.get? key = some name := by
  constructor
  · intro found
    obtain ⟨node, standing⟩ := Disk.mem_names.1 found
    exact tidy.listed name node standing
  · rintro ⟨key, indexed⟩
    obtain ⟨_, rfl, entry, _, record⟩ := tidy.indexed key name indexed
    exact Disk.mem_names.2 ⟨_, record⟩

theorem Tidy.inStep (tidy : archive.Tidy known disk home) : archive.InStep disk where
  saved := ⟨_, tidy.read_indexFile tidy.saved, Index.read?_write tidy.distinct⟩
  distinct := tidy.distinct
  named key name indexed := (tidy.indexed key name indexed).2.1
  listed := ⟨_, Disk.list_folder tidy.legal_records tidy.leads_records, fun _ =>
    tidy.mem_names_records⟩
  recorded key name indexed := by
    obtain ⟨_, rfl, entry, rfl, record⟩ := tidy.indexed key name indexed
    refine ⟨entry, rfl, ?_, embeddedKey?_record entry⟩
    rw [tidy.read_record, record]
  swept folder among := by
    rw [List.mem_cons, List.mem_singleton] at among
    rcases among with rfl | rfl
    · refine ⟨_, Disk.list_folder tidy.legal_root tidy.leads, fun name found => ?_⟩
      obtain ⟨node, standing⟩ := Disk.mem_names.1 found
      exact tidy.lasting.root standing
    · refine ⟨_, Disk.list_folder tidy.legal_records tidy.leads_records, fun name found => ?_⟩
      obtain ⟨node, standing⟩ := Disk.mem_names.1 found
      exact tidy.lasting.records standing

/-! ## A spoiled file of the index -/

/-- What somebody else may have done to the file of the index. -/
inductive Spoiling where
  | nothing
  | deletion
  | overwriting (bytes : Bytes)

/-- The disk after that. -/
def Spoiling.result? (archive : Archive) (disk : Disk) : Spoiling → Option Disk
  | .nothing => some disk
  | .deletion => disk.remove? archive.indexFile
  | .overwriting bytes => disk.write? archive.indexFile bytes

/-- The file of the index can be spoiled, and then nothing else has changed. -/
theorem Tidy.spoiling (tidy : archive.Tidy known disk home) (spoiling : Spoiling) :
    ∃ spoiled node, spoiling.result? archive disk = some spoiled ∧ node ≠ some .folder ∧
      Disk.Updates disk (indexAt home) node spoiled := by
  have file : disk.locate archive.indexFile = .ok (.file (indexAt home) archive.index.write) := by
    have saved := tidy.saved
    rw [indexAt] at saved ⊢
    rw [indexFile, Disk.locate_child tidy.legal_index tidy.leads (by decide), Disk.spot, saved]
  have below : indexAt home ≠ [] := by simp [indexAt]
  cases spoiling with
  | nothing =>
      refine ⟨disk, some (.file archive.index.write), rfl, by simp, fun asked => ?_⟩
      by_cases same : asked = indexAt home
      · rw [if_pos same, same, tidy.saved]
      · rw [if_neg same]
  | deletion =>
      refine ⟨disk.erase (indexAt home), none, ?_, by simp, Disk.node?_erase disk below⟩
      simp only [Spoiling.result?, Disk.remove?, file]
  | overwriting bytes =>
      refine ⟨disk.set (indexAt home) (.file bytes), some (.file bytes), ?_, by simp,
        Disk.node?_set disk below (.file bytes)⟩
      simp only [Spoiling.result?, Disk.write?, file]

/-- Rebuilding the index repairs its file, whatever it has become. -/
theorem Tidy.rebuild_spoiled (tidy : archive.Tidy known disk home) {spoiled : Disk}
    {node : Option Node} (no_folder : node ≠ some .folder)
    (updates : Disk.Updates disk (indexAt home) node spoiled) :
    ∃ index effects, archive.rebuild spoiled =
        ⟨archive.size, { archive with index }, effects, []⟩ ∧
      (∀ key, index.get? key = archive.index.get? key) ∧
      (∀ path, path ≠ indexAt home → (spoiled.perform effects).node? path = disk.node? path) ∧
      Tidy known { archive with index } (spoiled.perform effects) home := by
  have housed := tidy.toHoused.update updates (by rw [tidy.saved]; simp) archive.index
  have filed : Filed spoiled home := by
    intro name node standing
    rw [updates.elsewhere (child_ne_indexAt home name)] at standing
    exact tidy.filed name node standing
  obtain ⟨index, outcome, catalogs, saved⟩ :=
    housed.rebuild_filed filed (by rw [updates.here]; exact no_folder)
  have same : ∀ key, index.get? key = archive.index.get? key := by
    intro key
    rw [catalogs.lookups, tidy.get?_eq, updates.elsewhere (recordAt_ne_indexAt home key)]
  have whole := updates.again saved
  refine ⟨index, _, ?_, same, fun path => whole.elsewhere, ?_⟩
  · rw [outcome, size, Keyed.length_eq_of_get?_eq catalogs.distinct tidy.distinct same]
  · exact (tidy.resave catalogs.distinct same whole).1

end Archive

/-! ## Stores -/

namespace Store

variable {known : String → Prop} {home : Path} {store : Store}

/-- A tidy store is opened again with valid settings, and has the same archive on the same disk. -/
theorem Tidy.opened_again (tidy : store.Tidy known home) {settings : Settings}
    (same : Route.join [] settings.directory = store.cache.archive.root)
    (valid : settings.validate = .ok ()) (resolving : Bool) (describer : Option Describer) :
    ∃ again, Store.opened store.disk settings resolving describer = .ok again ∧
      again.cache.archive = store.cache.archive ∧ again.disk = store.disk := by
  have archive := tidy.archive.reopen
  rw [← same] at archive
  have established : Store.opened store.disk settings resolving describer = .ok
      { disk := store.disk
        cache :=
          { recent := .empty settings.memoryLimit
            archive := store.cache.archive
            tally := {}
            autoHydrate := settings.autoHydrate
            resolving, describer
            flights := [] }
        notices := [] } := by
    simp only [Store.opened, establish, valid, archive, if_true, Disk.perform_nil]
  exact ⟨_, established, rfl, rfl⟩

/-- Index and records are in step in every store that can come about. Making the index anew changes
neither, also when its file was spoiled before, and opening the cache again keeps the keys of tier 2 and
what is loaded for each of them. -/
theorem Reachable.index_in_step (distinct : DistinctNames known) (reachable : store.Reachable known home) :
    store.cache.archive.InStep store.disk ∧
      (∀ spoiling : Spoiling, ∃ disk, spoiling.result? store.cache.archive store.disk = some disk ∧
        ∃ rebuilt, rebuildIndex { store with disk } = (store.cache.archive.size, rebuilt) ∧
          (∀ key, rebuilt.cache.archive.index.get? key = store.cache.archive.index.get? key) ∧
          (∀ path, path ≠ indexAt home → rebuilt.disk.node? path = store.disk.node? path) ∧
          rebuilt.cache.archive.InStep rebuilt.disk) ∧
      ∀ settings : Settings, settings.validate = .ok () →
        Route.join [] settings.directory = store.cache.archive.root →
        ∀ (resolving : Bool) (describer : Option Describer), ∃ again,
          Store.opened store.disk settings resolving describer = .ok again ∧ ∀ key,
            again.cache.archive.contains key = store.cache.archive.contains key ∧
            (again.cache.archive.load again.disk key).answer =
              (store.cache.archive.load store.disk key).answer := by
  have tidy := (reachable.atRest distinct).tidy
  refine ⟨tidy.archive.inStep, fun spoiling => ?_, fun settings valid same resolving describer => ?_⟩
  · obtain ⟨disk, node, spoils, no_folder, updates⟩ := tidy.archive.spoiling spoiling
    obtain ⟨index, effects, outcome, lookups, elsewhere, kept⟩ :=
      tidy.archive.rebuild_spoiled no_folder updates
    have rebuilt : rebuildIndex { store with disk } = (store.cache.archive.size,
        { disk := disk.perform effects
          cache := { store.cache with archive := { store.cache.archive with index } }
          notices := store.notices }) := by
      simp only [rebuildIndex, outcome, carryOut, List.append_nil]
    exact ⟨disk, spoils, _, rebuilt, lookups, elsewhere, kept.inStep⟩
  · obtain ⟨again, opens, archive, disk⟩ := tidy.opened_again same valid resolving describer
    refine ⟨again, opens, fun key => ?_⟩
    rw [archive, disk]
    exact ⟨rfl, rfl⟩

/-- The file of the index of the crowded store is deleted, and the index is made anew from the one record
that is there. -/
theorem index_in_step_crowded :
    crowded.cache.archive.contains "k" = true ∧ crowded.cache.archive.InStep crowded.disk ∧
      ∃ disk rebuilt, Spoiling.deletion.result? crowded.cache.archive crowded.disk = some disk ∧
        rebuildIndex { crowded with disk } = (1, rebuilt) ∧
        rebuilt.cache.archive.InStep rebuilt.disk := by
  obtain ⟨inStep, rebuilds, _⟩ := reachable_crowded.index_in_step distinct_twoKeys
  obtain ⟨disk, spoils, rebuilt, outcome, _, _, again⟩ := rebuilds .deletion
  have size : crowded.cache.archive.size = 1 := by decide +kernel
  rw [size] at outcome
  exact ⟨by decide +kernel, inStep, disk, rebuilt, spoils, outcome, again⟩

end Store

end TieredCache
