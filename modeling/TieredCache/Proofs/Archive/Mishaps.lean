import TieredCache.Mishap
import TieredCache.Proofs.Archive.Saving

/-!
# Writes that fail

When the record of an evicted entry cannot be written, at most a temporary file comes to the disk, where
nothing stood. The index in memory, its file and every record are as they were.
-/

namespace TieredCache

/-! ## Mishaps -/

namespace Disk

variable {disk before after : Disk} {folder path : Path} {name : String} {bytes : Bytes}

/-- Without a mishap a file is replaced as the disk has it. -/
theorem attempt_none (disk : Disk) (folder : Route) (name : String) (bytes : Bytes) :
    disk.attempt none folder name bytes =
      match disk.replacement folder name bytes with
      | .ok effects => (effects, true)
      | .error _ => ([], false) := rfl

/-- A mishap changes what stands under the temporary name, and nothing else. -/
theorem updates_mishap (mishap : Mishap) (bytes : Bytes) (below : path ≠ []) (new : disk.node? path = none) :
    ∃ node, node ≠ some Node.folder ∧ Updates disk path node (disk.perform (mishap.effects path bytes)) := by
  obtain ⟨reached, stays⟩ := mishap
  cases reached with
  | none =>
      refine ⟨none, by simp, fun asked => ?_⟩
      by_cases here : asked = path
      · rw [if_pos here, here]
        exact new
      · rw [if_neg here]
        rfl
  | some size =>
      have created : Updates disk path (some (.file [])) (disk.apply (.createFile path)) :=
        node?_set disk below _
      have filled := created.again (node?_set (disk.apply (.createFile path)) below (.file (bytes.take size)))
      cases stays with
      | true => exact ⟨_, by simp, filled⟩
      | false => exact ⟨none, by simp, filled.again (updates_deleteFile _ below)⟩

/-- What cannot be replaced is left alone: either nothing happens, or after a mishap a temporary file comes to
the folder, where nothing stood. -/
theorem attempt_failed {mishap : Option Mishap} {route : Route}
    (failed : (disk.attempt mishap route name bytes).2 = false) :
    (disk.attempt mishap route name bytes).1 = [] ∨
      ∃ place node, mishap ≠ none ∧ disk.folderAt route = .ok place ∧ node ≠ some Node.folder ∧
        Updates disk (disk.scratch place) node (disk.perform (disk.attempt mishap route name bytes).1) := by
  cases mishap with
  | none =>
      left
      rw [attempt_none] at failed ⊢
      cases replaces : disk.replacement route name bytes with
      | error refusal => rfl
      | ok effects =>
          rw [replaces] at failed
          cases failed
  | some mishap =>
      simp only [attempt]
      cases found : disk.folderAt route with
      | error refusal => exact Or.inl rfl
      | ok place =>
          right
          have below : disk.scratch place ≠ [] := by simp [scratch]
          obtain ⟨node, file, updates⟩ := updates_mishap mishap bytes below (disk.node?_scratch place)
          exact ⟨place, node, by simp, rfl, file, updates⟩

end Disk

/-! ## What a failed write leaves alone -/

/-- The place of a file that is still being written. -/
def Disk.Stray (path : Path) : Prop := ∃ folder name, path = folder ++ [name] ∧ Disk.isTemporary name = true

namespace Archive

variable {archive : Archive} {disk before middle after : Disk} {key : String} {entry : Entry}

/-- Between two disks nothing has happened but that temporary files came where nothing stood. The file of
the index and every record are read as before. -/
structure Spares (archive : Archive) (before after : Disk) : Prop where
  kept : ∀ path node, before.node? path = some node → after.node? path = some node
  elsewhere : ∀ path, ¬ Disk.Stray path → after.node? path = before.node? path
  index : after.read archive.indexFile = before.read archive.indexFile
  records : ∀ name, Disk.isTemporary name = false →
    after.read (archive.records ++ [name]) = before.read (archive.records ++ [name])

theorem Spares.refl (archive : Archive) (disk : Disk) : archive.Spares disk disk :=
  ⟨fun _ _ => id, fun _ _ => rfl, rfl, fun _ _ => rfl⟩

theorem Spares.trans (first : archive.Spares before middle) (second : archive.Spares middle after) :
    archive.Spares before after where
  kept path node standing := second.kept path node (first.kept path node standing)
  elsewhere path plain := (second.elsewhere path plain).trans (first.elsewhere path plain)
  index := second.index.trans first.index
  records name lasting := (second.records name lasting).trans (first.records name lasting)

/-- A record that is not written leaves everything else alone. -/
theorem spares_attempt {mishap : Option Mishap} {name : String} {bytes : Bytes}
    (failed : (disk.attempt mishap archive.records name bytes).2 = false) :
    archive.Spares disk (disk.perform (disk.attempt mishap archive.records name bytes).1) := by
  rcases Disk.attempt_failed failed with nothing | ⟨place, node, _, there, file, updates⟩
  · rw [nothing]
    exact Spares.refl archive disk
  · have leads := (Disk.folderAt_eq_ok_iff.1 there).2
    have new := disk.node?_scratch place
    have keeps := updates.keepsFolders (by simp [new])
    obtain ⟨home, home_leads, _⟩ := leads.split
    obtain ⟨rfl, _⟩ := (leads_records_iff home_leads).1 leads
    have temporary := Disk.isTemporary_temporaryName (disk.names (recordsAt home))
    refine ⟨fun path node standing => ?_, fun path plain => ?_, ?_, fun name lasting => ?_⟩
    · rw [updates.elsewhere, standing]
      rintro rfl
      rw [new] at standing
      cases standing
    · refine updates.elsewhere ?_
      rintro rfl
      exact plain ⟨_, _, rfl, temporary⟩
    · exact Disk.read_name_congr (home_leads.keep keeps) home_leads
        (updates.elsewhere (child_ne_indexAt home _).symm)
    · refine Disk.read_name_congr (leads.keep keeps) leads (updates.elsewhere fun same => ?_)
      rw [show name = _ by simpa [Disk.scratch] using same, temporary] at lasting
      cases lasting

/-- The record of an entry cannot be written amid a hazard. -/
def Refuses (archive : Archive) (disk : Disk) (hazard : Hazard) (key : String) (entry : Entry) : Prop :=
  (disk.attempt hazard.record archive.records (recordName key) entry.record).2 = false

instance (archive : Archive) (disk : Disk) (hazard : Hazard) (key : String) (entry : Entry) :
    Decidable (archive.Refuses disk hazard key entry) := inferInstanceAs (Decidable (_ = _))

/-- A spill whose record cannot be written only gives notice. -/
theorem spillAmid_of_refuses {hazard : Hazard} (refuses : archive.Refuses disk hazard key entry) :
    archive.spillAmid hazard disk key entry =
      ⟨(), archive, (disk.attempt hazard.record archive.records (recordName key) entry.record).1,
        [.failedSpill]⟩ := by
  rw [Refuses] at refuses
  rw [spillAmid]
  rcases attempted : disk.attempt hazard.record archive.records (recordName key) entry.record with
    ⟨effects, replaced⟩
  rw [attempted] at refuses
  cases refuses
  rfl

/-- None of the records of a list of entries can be written, each amid the next hazard. -/
def Foiled (archive : Archive) : List Hazard → Disk → Keyed Entry → Prop
  | _, _, [] => True
  | hazards, disk, (key, entry) :: evicted =>
    archive.Refuses disk (hazards.headD {}) key entry ∧
      Foiled archive hazards.tail
        (disk.perform (archive.spillAmid (hazards.headD {}) disk key entry).effects) evicted

instance decidableFoiled (archive : Archive) : ∀ hazards disk evicted,
    Decidable (archive.Foiled hazards disk evicted)
  | _, _, [] => .isTrue trivial
  | hazards, disk, (key, entry) :: evicted =>
    have := decidableFoiled archive hazards.tail
      (disk.perform (archive.spillAmid (hazards.headD {}) disk key entry).effects) evicted
    inferInstanceAs (Decidable (_ ∧ _))

/-! ## Without a mishap -/

theorem saveAmid_none (archive : Archive) (disk : Disk) (failure : Notice) :
    archive.saveAmid none disk failure = archive.save disk failure := by
  rw [saveAmid, save, Disk.attempt_none]
  cases disk.replacement archive.root indexName archive.index.write <;> rfl

@[simp] theorem deletionAmid_calm (archive : Archive) (disk : Disk) (name : String) :
    archive.deletionAmid {} disk name = disk.deletion (archive.place name) := by
  rw [deletionAmid, if_neg List.not_mem_nil]

theorem forgetAmid_calm (archive : Archive) (disk : Disk) (key : String) :
    archive.forgetAmid {} disk key = archive.forget disk key := by
  simp only [forgetAmid, forget, saveAmid_none]

theorem loadAmid_calm (archive : Archive) (disk : Disk) (key : String) :
    archive.loadAmid {} disk key = archive.load disk key := by
  rw [loadAmid, load]
  cases archive.inspect disk key with
  | missing => simp only [settleAmid, settle, forgetAmid_calm]
  | corrupt name =>
      cases found : disk.deletion (archive.place name) <;>
        simp only [settleAmid, settle, purgeAmid, deletionAmid_calm, forgetAmid_calm, found]
  | _ => rfl

theorem removeAmid_calm (archive : Archive) (disk : Disk) (key : String) :
    archive.removeAmid {} disk key = archive.remove disk key := by
  cases found : disk.deletion (archive.place ((archive.index.get? key).getD (recordName key))) with
  | ok effect => simp only [removeAmid, remove, deletionAmid_calm, saveAmid_none, found]
  | error refusal =>
      cases refusal <;> simp only [removeAmid, remove, deletionAmid_calm, saveAmid_none, found]

theorem deleteAllAmid_calm (archive : Archive) (disk : Disk) (names : List String) :
    archive.deleteAllAmid {} disk names = archive.deleteAll disk names := by
  induction names generalizing disk with
  | nil => rfl
  | cons name names induction =>
      cases found : disk.deletion (archive.place name) with
      | ok effect => simp only [deleteAllAmid, deleteAll, deletionAmid_calm, induction, found]
      | error refusal =>
          cases refusal <;> simp only [deleteAllAmid, deleteAll, deletionAmid_calm, induction, found]

theorem clearAmid_calm (archive : Archive) (disk : Disk) :
    archive.clearAmid {} disk = archive.clear disk := by
  simp only [clearAmid, clear, deleteAllAmid_calm, saveAmid_none]

/-- Without a hazard an entry is spilled as it always is. -/
theorem spillAmid_calm (archive : Archive) (disk : Disk) (key : String) (entry : Entry) :
    archive.spillAmid {} disk key entry = archive.spill disk key entry := by
  rw [spillAmid, spill, Disk.attempt_none]
  cases disk.replacement archive.records (recordName key) entry.record with
  | error refusal => rfl
  | ok effects => simp only [saveAmid_none]

end Archive

/-! ## Stores -/

namespace Store

variable {store before middle after : Store}

/-- What a failed spill leaves alone: the archive in memory, the file of the index and every record. -/
structure Spared (before after : Store) : Prop where
  archive : after.cache.archive = before.cache.archive
  disk : before.cache.archive.Spares before.disk after.disk

/-- An entry whose record cannot be written is dropped with a notice, and the cache is as before. -/
theorem spillAmid_of_refuses {hazard : Hazard} {key : String} {entry : Entry}
    (refuses : store.cache.archive.Refuses store.disk hazard key entry) :
    (store.spillAmid hazard key entry).cache = store.cache ∧
      (store.spillAmid hazard key entry).notices = store.notices ++ [.failedSpill] ∧
      store.Spared (store.spillAmid hazard key entry) := by
  rw [spillAmid, Archive.spillAmid_of_refuses refuses]
  exact ⟨rfl, rfl, rfl, Archive.spares_attempt refuses⟩

/-- Entries of which no record can be written leave tier 2 as it was. -/
theorem spared_spillAllAmid {hazards : List Hazard} {evicted : Keyed Entry}
    (foiled : store.cache.archive.Foiled hazards store.disk evicted) :
    store.Spared (spillAllAmid hazards store evicted) := by
  induction evicted generalizing hazards store with
  | nil => exact ⟨rfl, Archive.Spares.refl _ _⟩
  | cons pair evicted induction =>
      obtain ⟨key, entry⟩ := pair
      obtain ⟨refuses, foiled⟩ := foiled
      obtain ⟨cache, _, first⟩ := spillAmid_of_refuses refuses
      have second := @induction (store.spillAmid (hazards.headD {}) key entry) hazards.tail (by
        rw [cache]
        exact foiled)
      refine ⟨second.archive.trans first.archive, first.disk.trans ?_⟩
      rw [← first.archive]
      exact second.disk

/-- Whatever goes wrong, evictions change the archive and nothing else of the cache. -/
theorem cache_spillAllAmid (hazards : List Hazard) (store : Store) (evicted : Keyed Entry) :
    (spillAllAmid hazards store evicted).cache =
      { store.cache with archive := (spillAllAmid hazards store evicted).cache.archive } := by
  induction evicted generalizing hazards store with
  | nil => rfl
  | cons pair evicted induction =>
      obtain ⟨key, entry⟩ := pair
      exact induction hazards.tail (store.spillAmid (hazards.headD {}) key entry)

theorem removeAmid_calm (store : Store) (key : String) :
    store.removeAmid {} key = store.remove key := by
  simp only [removeAmid, remove, Archive.removeAmid_calm]

theorem clearAmid_calm (store : Store) (recentOnly : Bool) :
    store.clearAmid {} recentOnly = store.clear recentOnly := by
  simp only [clearAmid, clear, Archive.clearAmid_calm]

theorem spillAllAmid_calm (store : Store) (evicted : Keyed Entry) :
    spillAllAmid [] store evicted = store.spillAll evicted := by
  induction evicted generalizing store with
  | nil => rfl
  | cons pair evicted induction =>
      obtain ⟨key, entry⟩ := pair
      rw [spillAllAmid, List.headD_nil, spillAmid, Archive.spillAmid_calm]
      exact induction _

end Store

end TieredCache
