import TieredCache.Proofs.Disk.Folders
import TieredCache.Proofs.Entry.Names
import TieredCache.Proofs.Entry.Records
import TieredCache.Proofs.Keyed

/-!
# Tidy archives

An archive is tidy if its index and its folder of records tell the same, and its file says what the
index says in memory. What a tidy archive holds for a key is the record on its shelf. Every operation
keeps an archive tidy and changes the shelves of the keys that it is about.
-/

namespace TieredCache

/-- No two of these keys have records of one name. -/
def DistinctNames (known : String → Prop) : Prop :=
  ∀ left right, known left → known right → recordName left = recordName right → left = right

namespace Archive

/-- The record that the index leads to from a key. -/
def shelf (archive : Archive) (disk : Disk) (key : String) : Option Bytes :=
  (archive.index.get? key).bind fun name => (disk.read (archive.place name)).toOption

/-- The folder of the records of an archive whose directory is `home`. -/
def recordsAt (home : Path) : Path := home ++ ["records"]

/-- Where the record of a key lies. -/
def recordAt (home : Path) (key : String) : Path := recordsAt home ++ [recordName key]

/-- Where the file of the index lies. -/
def indexAt (home : Path) : Path := home ++ [indexName]

/-- The stroke that saves an index. -/
def saving (home : Path) (index : Index) : Stroke := ⟨home, indexName, some index.write⟩

/-- The stroke that makes the record of a key what is given, or deletes it. -/
def recording (home : Path) (key : String) (record : Option Bytes) : Stroke :=
  ⟨recordsAt home, recordName key, record⟩

/-- The directory of an archive and the folder of its records are there, and paths in them are not too
long. -/
structure Housed (archive : Archive) (disk : Disk) (home : Path) : Prop where
  leads : Disk.Leads disk [] archive.root home
  records : disk.node? (recordsAt home) = some .folder
  legal : ∀ key, Route.isLegal (archive.records ++ [recordName key]) = true

/-- The index, the folder of records and the file of the index say the same. -/
structure Tidy (known : String → Prop) (archive : Archive) (disk : Disk) (home : Path) : Prop
    extends Housed archive disk home where
  distinct : archive.index.keys.Nodup
  indexed : ∀ key name, archive.index.get? key = some name → known key ∧ name = recordName key ∧
    ∃ entry : Entry, entry.key = key ∧ disk.node? (recordAt home key) = some (.file entry.record)
  listed : ∀ name node, disk.node? (recordsAt home ++ [name]) = some node →
    ∃ key, archive.index.get? key = some name
  saved : disk.node? (indexAt home) = some (.file archive.index.write)
  rest : ∀ name node, disk.node? (home ++ [name]) = some node → name = "records" ∨ name = indexName

/-! ## Places -/

theorem recordAt_ne_indexAt (home : Path) (key : String) : recordAt home key ≠ indexAt home := by
  intro same
  have lengths := congrArg List.length same
  simp [recordAt, recordsAt, indexAt] at lengths

theorem child_ne_recordAt (home : Path) (name key : String) : home ++ [name] ≠ recordAt home key := by
  intro same
  have lengths := congrArg List.length same
  simp [recordAt, recordsAt] at lengths

theorem child_ne_indexAt (home : Path) (name : String) : recordsAt home ++ [name] ≠ indexAt home := by
  intro same
  have lengths := congrArg List.length same
  simp [recordsAt, indexAt] at lengths

theorem recordAt_injective {known : String → Prop} (distinct : DistinctNames known) {home : Path}
    {left right : String} (left_known : known left) (right_known : known right)
    (same : recordAt home left = recordAt home right) : left = right := by
  apply distinct left right left_known right_known
  simpa [recordAt] using same

/-- The name of a record takes 45 bytes, and that of its folder seven. -/
theorem isLegal_record {root : Route} (legal : root.isLegal = true)
    (short : root.size + 54 ≤ Route.maxSize) (key : String) :
    Route.isLegal (root ++ ["records"] ++ [recordName key]) = true := by
  obtain ⟨_, clean⟩ := Disk.isLegal_iff.1 legal
  have folder : Route.size ["records"] = 8 := by decide
  have record : Route.size [recordName key] = 46 := by
    simp [Route.size, utf8ByteSize_recordName]
  refine Disk.isLegal_iff.2 ⟨?_, fun name member => ?_⟩
  · rw [Disk.size_append, Disk.size_append, folder, record]
    omega
  · rcases List.mem_append.1 member with member | member
    · rcases List.mem_append.1 member with member | member
      · exact clean name member
      · have records : Route.isLegal ["records"] = true := by decide +kernel
        exact (Disk.isLegal_iff.1 records).2 name member
    · obtain rfl := List.mem_singleton.1 member
      intro character within
      exact (nameChars_spec character (recordName_mem_nameChars key character within)).2.2

/-- The record of a key and the file of the index are changed, and nothing else. -/
structure Rewrites (home : Path) (key : String) (record : Option Bytes) (index : Index)
    (before after : Disk) : Prop where
  here : after.node? (recordAt home key) = record.map .file
  saved : after.node? (indexAt home) = some (.file index.write)
  elsewhere : ∀ path, path ≠ recordAt home key → path ≠ indexAt home →
    after.node? path = before.node? path

namespace Rewrites

variable {home : Path} {key : String} {record : Option Bytes} {index : Index}
  {before after : Disk}

/-- The two strokes that change a record and save an index. -/
theorem of_effects (before : Disk) (home : Path) (key : String) (record : Option Bytes)
    (index : Index) : Rewrites home key record index before
      (before.perform (before.effects [recording home key record, saving home index])) := by
  have recorded := Disk.updates_effectsOf before (recording home key record)
  have saved := Disk.updates_effectsOf
    (before.perform (before.effectsOf (recording home key record))) (saving home index)
  rw [Disk.effects_cons, Disk.perform_append, Disk.effects_cons, Disk.perform_append]
  refine ⟨?_, saved.here, fun path not_record not_index => ?_⟩
  · exact (saved.elsewhere (recordAt_ne_indexAt home key)).trans recorded.here
  · exact (saved.elsewhere not_index).trans (recorded.elsewhere not_record)

theorem others (rewrites : Rewrites home key record index before after)
    {known : String → Prop} (distinct : DistinctNames known) (key_known : known key) {other : String}
    (other_known : known other) (differs : other ≠ key) :
    after.node? (recordAt home other) = before.node? (recordAt home other) := by
  refine rewrites.elsewhere _ (fun same => differs ?_) (recordAt_ne_indexAt home other)
  exact recordAt_injective distinct other_known key_known same

end Rewrites

namespace Housed

variable {archive : Archive} {disk : Disk} {home : Path}

theorem legal_records (housed : archive.Housed disk home) : archive.records.isLegal = true :=
  Disk.isLegal_of_append (housed.legal "")

theorem legal_root (housed : archive.Housed disk home) : archive.root.isLegal = true :=
  Disk.isLegal_of_append housed.legal_records

theorem legal_index (housed : archive.Housed disk home) :
    Route.isLegal (archive.root ++ [indexName]) = true := by
  have short := (Disk.isLegal_iff.1 (housed.legal "")).1
  have clean := (Disk.isLegal_iff.1 housed.legal_root).2
  have record : Route.size [recordName ""] = 46 := by
    simp [Route.size, utf8ByteSize_recordName]
  have file : Route.size [indexName] = 11 := by decide
  rw [Archive.records, Disk.size_append, Disk.size_append, record] at short
  refine Disk.isLegal_iff.2 ⟨by rw [Disk.size_append, file]; omega, fun name found => ?_⟩
  rcases List.mem_append.1 found with found | found
  · exact clean name found
  · have index : Route.isLegal [indexName] = true := by decide +kernel
    exact (Disk.isLegal_iff.1 index).2 name found

theorem leads_records (housed : archive.Housed disk home) :
    Disk.Leads disk [] archive.records (recordsAt home) := by
  have found : disk.follow [] (archive.root ++ ["records"]) = .ok (.folder (recordsAt home)) := by
    rw [housed.leads.follow_append, Disk.follow_plain (by decide)]
    have records := housed.records
    rw [recordsAt] at records ⊢
    rw [records]
    rfl
  exact Disk.follow_eq_folder.1 found

/-- The index has no part in where an archive is housed. -/
theorem withIndex (housed : archive.Housed disk home) (index : Index) :
    Housed { archive with index } disk home := ⟨housed.leads, housed.records, housed.legal⟩

/-- An archive stays housed when a place is changed where no folder stands. -/
theorem update (housed : archive.Housed disk home) {path : Path} {node : Option Node} {after : Disk}
    (updates : Disk.Updates disk path node after) (no_folder : disk.node? path ≠ some .folder)
    (index : Index) : Housed { archive with index } after home where
  leads := housed.leads.keep (updates.keepsFolders no_folder)
  records := updates.keepsFolders no_folder _ housed.records
  legal := housed.legal

/-- An archive stays housed when a record and the file of the index are changed where no folders
stand. -/
theorem rewritten (housed : archive.Housed disk home) {key : String} {record : Option Bytes}
    {index : Index} {after : Disk} (rewrites : Rewrites home key record index disk after)
    (no_folder : disk.node? (recordAt home key) ≠ some .folder)
    (no_index_folder : disk.node? (indexAt home) ≠ some .folder) :
    Housed { archive with index } after home := by
  have keeps : Disk.KeepsFolders disk after := by
    intro path folder
    have not_record : path ≠ recordAt home key := by
      rintro rfl
      exact no_folder folder
    have not_index : path ≠ indexAt home := by
      rintro rfl
      exact no_index_folder folder
    rw [rewrites.elsewhere path not_record not_index, folder]
  exact ⟨housed.leads.keep keeps, keeps _ housed.records, housed.legal⟩

theorem read_record (housed : archive.Housed disk home) (key : String) :
    disk.read (archive.place (recordName key)) =
      match disk.node? (recordAt home key) with
      | some (.file bytes) => .ok bytes
      | some .folder => .error .obstacle
      | none => .error .missing := by
  rw [place_recordName]
  exact Disk.read_child (housed.legal key) housed.leads_records (plain_recordName key)

theorem deletion_record (housed : archive.Housed disk home) (key : String) :
    disk.deletion (archive.place (recordName key)) =
      match disk.node? (recordAt home key) with
      | some (.file _) => .ok (.deleteFile (recordAt home key))
      | some .folder => .error .obstacle
      | none => .error .missing := by
  rw [place_recordName]
  exact Disk.deletion_child (housed.legal key) housed.leads_records (plain_recordName key)

/-- The index is saved where no folder stands. -/
theorem save_spec (housed : archive.Housed disk home)
    (no_folder : disk.node? (indexAt home) ≠ some .folder) (failure : Notice) :
    archive.save disk failure = (disk.effectsOf (saving home archive.index), []) ∧
      Disk.Updates disk (indexAt home) (some (.file archive.index.write))
        (disk.perform (disk.effectsOf (saving home archive.index))) := by
  refine ⟨?_, Disk.updates_effectsOf disk (saving home archive.index)⟩
  rw [save, Disk.replacement_child housed.legal_index housed.leads (by decide) no_folder]
  rfl

end Housed

namespace Tidy

variable {known : String → Prop} {archive : Archive} {disk : Disk} {home : Path}

/-- An indexed key has a record of its own on its shelf. -/
theorem shelf_of_get? (tidy : archive.Tidy known disk home) {key name : String}
    (indexed : archive.index.get? key = some name) :
    ∃ entry : Entry, entry.key = key ∧ archive.shelf disk key = some entry.record ∧
      disk.node? (recordAt home key) = some (.file entry.record) := by
  obtain ⟨_, rfl, entry, own, record⟩ := tidy.indexed key name indexed
  refine ⟨entry, own, ?_, record⟩
  rw [shelf, indexed, Option.bind_some, tidy.read_record, record]
  rfl

theorem shelf_eq_none_iff (tidy : archive.Tidy known disk home) {key : String} :
    archive.shelf disk key = none ↔ archive.index.get? key = none := by
  constructor
  · intro nothing
    cases indexed : archive.index.get? key with
    | none => rfl
    | some name =>
        obtain ⟨entry, _, shelf, _⟩ := tidy.shelf_of_get? indexed
        rw [nothing] at shelf
        cases shelf
  · intro nothing
    rw [shelf, nothing]
    rfl

theorem contains_iff (tidy : archive.Tidy known disk home) {key : String} :
    archive.contains key = (archive.shelf disk key).isSome := by
  cases shelf : archive.shelf disk key with
  | none => simp [Archive.contains, Keyed.has, tidy.shelf_eq_none_iff.1 shelf]
  | some record =>
      cases indexed : archive.index.get? key with
      | none =>
          rw [tidy.shelf_eq_none_iff.2 indexed] at shelf
          cases shelf
      | some name => simp [Archive.contains, Keyed.has, indexed]

/-- Where the record of a key lies, there is what is on the shelf of the key. -/
theorem node?_recordAt (tidy : archive.Tidy known disk home) (distinct : DistinctNames known)
    {key : String} (key_known : known key) :
    disk.node? (recordAt home key) = (archive.shelf disk key).map .file := by
  cases indexed : archive.index.get? key with
  | some name =>
      obtain ⟨entry, _, shelf, record⟩ := tidy.shelf_of_get? indexed
      rw [shelf, record]
      rfl
  | none =>
      rw [tidy.shelf_eq_none_iff.2 indexed]
      cases standing : disk.node? (recordAt home key) with
      | none => rfl
      | some node =>
          obtain ⟨other, found⟩ := tidy.listed _ node standing
          obtain ⟨other_known, same, _⟩ := tidy.indexed other _ found
          rw [distinct key other key_known other_known same, found] at indexed
          cases indexed

theorem no_folder_recordAt (tidy : archive.Tidy known disk home) (distinct : DistinctNames known)
    {key : String} (key_known : known key) : disk.node? (recordAt home key) ≠ some .folder := by
  rw [tidy.node?_recordAt distinct key_known]
  cases archive.shelf disk key <;> simp

/-! ## Changing the record of one key -/

/-- The index with or without a key, as there is a record of it or not. -/
def reindex (index : Index) (key : String) (record : Option Bytes) : Index :=
  if record.isSome then index.put key (recordName key) else index.erase key

theorem get?_reindex (index : Index) (key asked : String) (record : Option Bytes) :
    (reindex index key record).get? asked =
      if asked = key then record.map fun _ => recordName key else index.get? asked := by
  cases record with
  | none =>
      simp only [reindex, Option.isSome_none, Bool.false_eq_true, if_false, Option.map_none]
      exact Keyed.get?_erase index key asked
  | some record =>
      simp only [reindex, Option.isSome_some, if_true, Option.map_some]
      exact Keyed.get?_put index key asked _

section Rewriting

variable {key : String} {record : Option Bytes} {index : Index} {after : Disk}

/-- Every key of the new index has a record of its own. -/
theorem indexed_rewritten (tidy : archive.Tidy known disk home) (distinct : DistinctNames known)
    (key_known : known key)
    (own : ∀ bytes ∈ record, ∃ entry : Entry, entry.key = key ∧ bytes = entry.record)
    (rewrites : Rewrites home key record index disk after) {other name : String}
    (found : (reindex archive.index key record).get? other = some name) :
    known other ∧ name = recordName other ∧
      ∃ entry : Entry, entry.key = other ∧
        after.node? (recordAt home other) = some (.file entry.record) := by
  rw [get?_reindex] at found
  split at found
  · rename_i same
    obtain ⟨bytes, recorded_here, rfl⟩ := Option.map_eq_some_iff.1 found
    obtain ⟨entry, entry_key, rfl⟩ := own bytes recorded_here
    rw [same, rewrites.here, recorded_here]
    exact ⟨key_known, rfl, entry, entry_key, rfl⟩
  · rename_i differs
    obtain ⟨other_known, named, entry, entry_key, standing⟩ := tidy.indexed other name found
    refine ⟨other_known, named, entry, entry_key, ?_⟩
    rw [rewrites.others distinct key_known other_known differs, standing]

/-- Every record is in the new index. -/
theorem listed_rewritten (tidy : archive.Tidy known disk home)
    (rewrites : Rewrites home key record index disk after) {name : String} {node : Node}
    (standing : after.node? (recordsAt home ++ [name]) = some node) :
    ∃ other, (reindex archive.index key record).get? other = some name := by
  by_cases same : name = recordName key
  · subst same
    have standing_here := rewrites.here.symm.trans standing
    obtain ⟨bytes, recorded_here, _⟩ := Option.map_eq_some_iff.1 standing_here
    refine ⟨key, ?_⟩
    rw [get?_reindex, if_pos rfl, recorded_here]
    rfl
  · rw [rewrites.elsewhere _ (by simpa [recordAt] using same) (child_ne_indexAt home name)] at standing
    obtain ⟨other, found⟩ := tidy.listed name node standing
    refine ⟨other, ?_⟩
    have differs : other ≠ key := by
      rintro rfl
      exact same (tidy.indexed other name found).2.1
    rw [get?_reindex, if_neg differs, found]

theorem rewritten (tidy : archive.Tidy known disk home) (distinct : DistinctNames known)
    (key_known : known key)
    (own : ∀ bytes ∈ record, ∃ entry : Entry, entry.key = key ∧ bytes = entry.record)
    (rewrites : Rewrites home key record (reindex archive.index key record) disk after) :
    Tidy known { archive with index := reindex archive.index key record } after home := by
  have housed := tidy.toHoused.rewritten rewrites (tidy.no_folder_recordAt distinct key_known)
    (by rw [tidy.saved]; simp)
  refine ⟨housed, ?_, ?_, ?_, rewrites.saved, ?_⟩
  · cases record with
    | none => exact Keyed.nodup_erase tidy.distinct key
    | some record => exact Keyed.nodup_put tidy.distinct key _
  · intro other name found
    exact tidy.indexed_rewritten distinct key_known own rewrites found
  · intro name node standing
    exact tidy.listed_rewritten rewrites standing
  · intro name node standing
    by_cases same : name = indexName
    · exact Or.inr same
    · rw [rewrites.elsewhere _ (child_ne_recordAt home name key) (by simpa [indexAt] using same)]
        at standing
      exact tidy.rest name node standing

/-- An archive stays tidy when the record of one key is changed together with the index. The other
shelves stay as they are. -/
theorem reshelve (tidy : archive.Tidy known disk home) (distinct : DistinctNames known)
    (key_known : known key)
    (own : ∀ bytes ∈ record, ∃ entry : Entry, entry.key = key ∧ bytes = entry.record) :
    let after := disk.perform
      (disk.effects [recording home key record, saving home (reindex archive.index key record)])
    Tidy known { archive with index := reindex archive.index key record } after home ∧
      ∀ asked, shelf { archive with index := reindex archive.index key record } after asked =
        if asked = key then record else archive.shelf disk asked := by
  have rewrites :=
    Rewrites.of_effects disk home key record (reindex archive.index key record)
  have kept := tidy.rewritten distinct key_known own rewrites
  refine ⟨kept, fun asked => ?_⟩
  by_cases same : asked = key
  · rw [if_pos same, same]
    have standing := kept.node?_recordAt distinct key_known
    rw [rewrites.here] at standing
    exact (Option.map_injective (fun _ _ same => Node.file.inj same) standing).symm
  · rw [if_neg same, shelf, shelf, get?_reindex, if_neg same]
    cases found : archive.index.get? asked with
    | none => rfl
    | some name =>
        obtain ⟨asked_known, rfl, _⟩ := tidy.indexed asked name found
        rw [Option.bind_some, Option.bind_some, kept.read_record, tidy.read_record,
          rewrites.others distinct key_known asked_known same]

end Rewriting

end Tidy

end Archive

end TieredCache
