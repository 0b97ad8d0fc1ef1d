import TieredCache.Proofs.Archive.Reach
import TieredCache.Proofs.Archive.Tidy
import TieredCache.Proofs.Disk.Listings
import TieredCache.Proofs.IndexFile

/-!
# Saving an index

Where an index can be saved, saving it changes the file of the index and nothing else, and the index is
read back from there. Where it cannot, nothing changes.
-/

namespace TieredCache.Archive

variable {archive : Archive} {disk after : Disk} {home : Path} {index : Index}

/-! ## Where an index can be saved -/

/-- The file of the index is read as the index in memory. -/
def OnFile (archive : Archive) (disk : Disk) : Prop :=
  ∃ bytes, disk.read archive.indexFile = .ok bytes ∧ Index.read? bytes = some archive.index

/-- The directory of an archive is there, and its index can be saved in it. -/
structure Savable (archive : Archive) (disk : Disk) (home : Path) : Prop where
  leads : Disk.Leads disk [] archive.root home
  legal : Route.isLegal archive.indexFile = true
  free : disk.node? (indexAt home) ≠ some .folder

theorem plain_indexName : Disk.Plain indexName := by decide +kernel

/-- The place of the file of the index is not that of the folder of records. -/
theorem indexAt_ne_recordsAt (home : Path) : indexAt home ≠ recordsAt home := by
  simp [indexAt, recordsAt, indexName]

namespace Savable

/-- The index has no part in whether it can be saved. -/
theorem withIndex (savable : archive.Savable disk home) (index : Index) :
    Savable { archive with index } disk home := ⟨savable.leads, savable.legal, savable.free⟩

/-- What changes elsewhere, where no folder stands, leaves a place to save the index in. -/
theorem update (savable : archive.Savable disk home) {path : Path} {node : Option Node}
    (updates : Disk.Updates disk path node after) (no_folder : disk.node? path ≠ some .folder)
    (file : node ≠ some .folder) : archive.Savable after home where
  leads := savable.leads.keep (updates.keepsFolders no_folder)
  legal := savable.legal
  free := by
    rw [updates]
    split
    · exact file
    · exact savable.free

theorem save_eq (savable : archive.Savable disk home) (failure : Notice) :
    archive.save disk failure = (disk.effectsOf (saving home archive.index), []) := by
  rw [save, Disk.replacement_child savable.legal savable.leads plain_indexName savable.free]
  rfl

/-- After an index has been saved it can be saved again. -/
theorem saved (savable : archive.Savable disk home) (index : Index) :
    archive.Savable (disk.perform (disk.effectsOf (saving home index))) home :=
  savable.update (Disk.updates_effectsOf disk (saving home index)) savable.free (by simp [saving, Stroke.node?])

/-- What stands in the place of the file of the index is read as the index. -/
theorem onFile (savable : archive.Savable disk home) (distinct : archive.index.keys.Nodup)
    (written : disk.node? (indexAt home) = some (.file archive.index.write)) : archive.OnFile disk := by
  refine ⟨archive.index.write, ?_, Index.read?_write distinct⟩
  rw [indexFile, Disk.read_child savable.legal savable.leads plain_indexName, ← indexAt, written]

end Savable

/-- An index is saved, or nothing is done and the failure is noted. -/
theorem save_cases (archive : Archive) (disk : Disk) (failure : Notice) :
    (∃ home, archive.Savable disk home ∧
      archive.save disk failure = (disk.effectsOf (saving home archive.index), [])) ∨
      archive.save disk failure = ([], [failure]) := by
  cases replaces : disk.replacement archive.root indexName archive.index.write with
  | error refusal =>
      right
      rw [save, replaces]
  | ok effects =>
      left
      obtain ⟨home, there, legal, free, _⟩ := Disk.replacement_eq_ok plain_indexName replaces
      have savable : archive.Savable disk home := ⟨(Disk.folderAt_eq_ok_iff.1 there).2, legal, free⟩
      exact ⟨home, savable, savable.save_eq failure⟩

/-- Saving an index a second time changes nothing. -/
theorem agree_save_again (archive : Archive) (disk : Disk) (failure : Notice) :
    Disk.Agree (disk.perform (archive.save disk failure).1)
      ((disk.perform (archive.save disk failure).1).perform
        (archive.save (disk.perform (archive.save disk failure).1) failure).1) := by
  rcases archive.save_cases disk failure with ⟨home, savable, saved⟩ | refused
  · rw [saved]
    simp only [(savable.saved archive.index).save_eq]
    have first := Disk.updates_effectsOf disk (saving home archive.index)
    have second := Disk.updates_effectsOf (disk.perform (disk.effectsOf (saving home archive.index)))
      (saving home archive.index)
    intro path
    by_cases here : path = (saving home archive.index).path
    · rw [here, first.here, second.here]
    · exact (second.elsewhere here).symm
  · simp only [refused, Disk.perform_nil]
    exact Disk.Agree.refl disk

theorem OnFile.node? (onFile : archive.OnFile disk) (leads : Disk.Leads disk [] archive.root home) :
    ∃ bytes, disk.node? (indexAt home) = some (.file bytes) := by
  obtain ⟨bytes, read, _⟩ := onFile
  obtain ⟨_, folder, there, standing⟩ := (Disk.read_child_iff plain_indexName).1 read
  obtain rfl := there.unique leads
  exact ⟨bytes, standing⟩

/-! ## Records after an index has been saved -/

/-- The records are in the folder of their name, in the directory. -/
theorem leads_records_iff {root : Route} {folder : Path} (leads : Disk.Leads disk [] root home) :
    Disk.Leads disk [] (root ++ ["records"]) folder ↔
      folder = recordsAt home ∧ disk.node? (recordsAt home) = some .folder := by
  rw [← Disk.follow_eq_folder, leads.follow_append, Disk.follow_plain (by decide), recordsAt]
  cases disk.node? (home ++ ["records"]) with
  | none => simp
  | some node => cases node <;> simp [Disk.follow, eq_comm]

/-- Records are read alike from disks on which the same stands in the folder of records. -/
theorem read_record_congr {left right : Disk} {root : Route} (leads_left : Disk.Leads left [] root home)
    (leads_right : Disk.Leads right [] root home) {name : String}
    (folder : left.node? (recordsAt home) = right.node? (recordsAt home))
    (file : left.node? (recordsAt home ++ [name]) = right.node? (recordsAt home ++ [name])) :
    left.read (root ++ ["records"] ++ [name]) = right.read (root ++ ["records"] ++ [name]) := by
  rw [Disk.read, Disk.read, Disk.locate, Disk.locate, List.append_assoc, leads_left.follow_append,
    leads_right.follow_append, List.cons_append, List.nil_append,
    Disk.follow_names_congr (by decide) folder file]

namespace Savable

/-- Saving an index leaves the records alone. -/
theorem read_record (savable : archive.Savable disk home) (index : Index) (name : String) :
    (disk.perform (disk.effectsOf (saving home index))).read (archive.records ++ [name]) =
      disk.read (archive.records ++ [name]) := by
  have updates := Disk.updates_effectsOf disk (saving home index)
  exact read_record_congr (savable.saved index).leads savable.leads
    (updates.elsewhere (indexAt_ne_recordsAt home).symm) (updates.elsewhere (child_ne_indexAt home name))

/-- Saving an index leaves the listing of the records alone, its order included. -/
theorem list_records (savable : archive.Savable disk home) (index : Index) :
    (disk.perform (disk.effectsOf (saving home index))).list archive.records =
      disk.list archive.records := by
  have folder := (Disk.updates_effectsOf disk (saving home index)).elsewhere
    (indexAt_ne_recordsAt home).symm
  have same : (disk.perform (disk.effectsOf (saving home index))).folderAt archive.records =
      disk.folderAt archive.records := by
    rw [Disk.folderAt, Disk.folderAt, Disk.locate, Disk.locate, records,
      (savable.saved index).leads.follow_append, savable.leads.follow_append,
      Disk.follow_name_congr folder]
  rw [Disk.list, Disk.list, same]
  cases found : disk.folderAt archive.records with
  | error refusal => rfl
  | ok path =>
      obtain ⟨rfl, _⟩ := (leads_records_iff savable.leads).1 (Disk.folderAt_eq_ok_iff.1 found).2
      have elsewhere : (saving home index).folder ≠ recordsAt home := by simp [saving, recordsAt]
      exact congrArg Except.ok (Disk.names_effectsOf elsewhere disk)

end Savable

end TieredCache.Archive
