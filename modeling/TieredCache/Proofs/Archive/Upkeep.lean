import TieredCache.Archive.Recovery
import TieredCache.Proofs.Archive.Operations
import TieredCache.Proofs.IndexFile

/-!
# Upkeep of a tidy archive

Clearing empties every shelf. Rebuilding the index and opening the archive anew leave every shelf as
it is.
-/

namespace TieredCache.Archive

variable {known : String → Prop} {archive : Archive} {disk : Disk} {home : Path}

/-! ## Clearing -/

/-- Files are deleted one after another, and one that is gone is passed over. -/
theorem deleteAll_spec (housed : archive.Housed disk home) {keys : List String}
    (files : ∀ key ∈ keys, disk.node? (recordAt home key) ≠ some .folder) :
    ∃ gone : List String,
      archive.deleteAll disk (keys.map recordName) =
        (disk.effects (gone.map fun key => recording home key none), []) ∧
      (gone.map (recordAt home)).Nodup ∧
      (∀ key ∈ gone, key ∈ keys ∧ disk.node? (recordAt home key) ≠ none) ∧
      ∀ path, (disk.perform (archive.deleteAll disk (keys.map recordName)).1).node? path =
        if path ∈ keys.map (recordAt home) then none else disk.node? path := by
  induction keys generalizing disk with
  | nil => exact ⟨[], rfl, by simp, by simp, by simp [deleteAll]⟩
  | cons key keys induction =>
      have file := files key List.mem_cons_self
      rw [List.map_cons, deleteAll, housed.deletion_record]
      cases standing : disk.node? (recordAt home key) with
      | none =>
          obtain ⟨gone, outcome, distinct, among, cleared⟩ := induction housed fun other found =>
            files other (List.mem_cons_of_mem key found)
          refine ⟨gone, outcome, distinct, fun other found => ?_, fun path => ?_⟩
          · exact ⟨List.mem_cons_of_mem key (among other found).1, (among other found).2⟩
          · have deleted := cleared path
            simp only
            rw [deleted]
            by_cases here : path = recordAt home key
            · simp [here, standing]
            · simp [here]
      | some node =>
          cases node with
          | folder => exact absurd standing file
          | file bytes =>
              have updates : Disk.Updates disk (recordAt home key) none
                  (disk.apply (.deleteFile (recordAt home key))) :=
                Disk.updates_effectsOf disk (recording home key none)
              have later : ∀ other ∈ keys,
                  (disk.apply (.deleteFile (recordAt home key))).node? (recordAt home other) ≠
                    some .folder := by
                intro other found
                rw [updates]
                split
                · simp
                · exact files other (List.mem_cons_of_mem key found)
              obtain ⟨gone, outcome, distinct, among, cleared⟩ :=
                induction (housed.update updates file archive.index) later
              have new : recordAt home key ∉ gone.map (recordAt home) := by
                intro found
                obtain ⟨other, deleted, same⟩ := List.mem_map.1 found
                have stands := (among other deleted).2
                rw [same, updates.here] at stands
                exact stands rfl
              refine ⟨key :: gone, ?_, List.nodup_cons.2 ⟨new, distinct⟩, ?_, fun path => ?_⟩
              · simp only [outcome]
                rfl
              · intro other found
                rcases List.mem_cons.1 found with rfl | found
                · exact ⟨List.mem_cons_self, by rw [standing]; simp⟩
                · obtain ⟨listed, stands⟩ := among other found
                  refine ⟨List.mem_cons_of_mem key listed, fun nothing => stands ?_⟩
                  rw [updates]
                  split
                  · rfl
                  · exact nothing
              · have deleted := cleared path
                simp only [Disk.perform_cons]
                rw [deleted, updates]
                by_cases here : path = recordAt home key
                · simp [here]
                · simp [here]

/-- The records of the indexed keys are gone, and nothing else. -/
def Emptied (archive : Archive) (home : Path) (before after : Disk) : Prop :=
  ∀ path, after.node? path =
    if path ∈ archive.index.keys.map (recordAt home) then none else before.node? path

/-- No folder stands in the place of the record of an indexed key. -/
theorem Tidy.no_folder_indexed (tidy : archive.Tidy known disk home) {key : String}
    (found : key ∈ archive.index.keys) : disk.node? (recordAt home key) ≠ some .folder := by
  obtain ⟨name, indexed⟩ := Keyed.mem_keys_iff.1 found
  obtain ⟨entry, _, _, record⟩ := tidy.shelf_of_get? indexed
  rw [record]
  simp

theorem Tidy.deleteAll (tidy : archive.Tidy known disk home) :
    ∃ gone : List String,
      archive.deleteAll disk (archive.index.map Prod.snd) =
        (disk.effects (gone.map fun key => recording home key none), []) ∧
      (gone.map (recordAt home)).Nodup ∧
      archive.Emptied home disk
        (disk.perform (disk.effects (gone.map fun key => recording home key none))) := by
  have names : archive.index.map Prod.snd = archive.index.keys.map recordName := by
    rw [Keyed.keys, List.map_map]
    refine List.map_congr_left fun pair found => ?_
    exact (tidy.indexed pair.1 pair.2 (Keyed.get?_of_mem tidy.distinct found)).2.1
  rw [names]
  obtain ⟨gone, outcome, distinct, _, cleared⟩ :=
    deleteAll_spec tidy.toHoused fun key => tidy.no_folder_indexed
  rw [outcome] at cleared
  exact ⟨gone, outcome, distinct, cleared⟩

section Emptied

variable {middle after : Disk}

theorem Tidy.housed_emptied (tidy : archive.Tidy known disk home)
    (emptied : archive.Emptied home disk middle) (index : Index) :
    Housed { archive with index } middle home := by
  have keeps : Disk.KeepsFolders disk middle := by
    intro path folder
    rw [emptied, if_neg, folder]
    intro found
    obtain ⟨key, indexed, rfl⟩ := List.mem_map.1 found
    exact tidy.no_folder_indexed indexed folder
  exact ⟨tidy.leads.keep keeps, keeps _ tidy.records, tidy.legal⟩

theorem Tidy.saved_emptied (tidy : archive.Tidy known disk home)
    (emptied : archive.Emptied home disk middle) :
    middle.node? (indexAt home) = some (.file archive.index.write) := by
  rw [emptied, if_neg, tidy.saved]
  intro found
  obtain ⟨key, _, same⟩ := List.mem_map.1 found
  exact recordAt_ne_indexAt home key same

/-- With an empty index an emptied archive is tidy. -/
theorem Tidy.emptied (tidy : archive.Tidy known disk home)
    (emptied : archive.Emptied home disk middle)
    (updates : Disk.Updates middle (indexAt home) (some (.file (Index.write []))) after) :
    Tidy known { archive with index := [] } after home := by
  have no_folder : middle.node? (indexAt home) ≠ some .folder := by
    rw [tidy.saved_emptied emptied]
    simp
  refine ⟨(tidy.housed_emptied emptied []).update updates no_folder [], List.nodup_nil, ?_, ?_,
    updates.here, ?_⟩
  · intro key name found
    cases found
  · intro name node standing
    rw [updates.elsewhere (child_ne_indexAt home name), emptied] at standing
    split at standing
    · cases standing
    · rename_i not_indexed
      obtain ⟨key, indexed⟩ := tidy.listed name node standing
      obtain ⟨_, rfl, _⟩ := tidy.indexed key name indexed
      have found := Keyed.mem_keys_iff.2 ⟨_, indexed⟩
      exact absurd (List.mem_map_of_mem found) not_indexed
  · intro name node standing
    by_cases same : name = indexName
    · exact Or.inr same
    · rw [updates.elsewhere (by simpa [indexAt] using same), emptied] at standing
      split at standing
      · cases standing
      · exact tidy.rest name node standing

end Emptied

/-- A tidy archive that is cleared has nothing on any shelf. -/
theorem Tidy.clear (tidy : archive.Tidy known disk home) :
    (archive.clear disk).Leaves known archive disk home fun _ => none := by
  obtain ⟨gone, deleted, distinct, emptied⟩ := tidy.deleteAll
  have index_file := tidy.saved_emptied emptied
  obtain ⟨saved, updates⟩ :=
    (tidy.housed_emptied emptied []).save_spec (by rw [index_file]; simp) .unsavedClear
  have kept := tidy.emptied emptied updates
  have proceeds : Proceeds home
      (gone.map (fun key => recording home key none) ++ [saving home []]) := by
    apply proceeds_saving
    · rw [List.map_map]
      exact distinct
    · intro change among
      obtain ⟨key, _, rfl⟩ := List.mem_map.1 among
      rfl
  generalize gone.map (fun key => recording home key none) = changes at deleted saved kept proceeds
  have outcome : archive.clear disk = ⟨archive.size, { archive with index := [] },
      disk.effects (changes ++ [saving home []]), []⟩ := by
    simp only [Archive.clear, deleted, saved, Disk.effects_append, Disk.effects_singleton,
      List.append_nil]
  rw [← Disk.perform_append, ← Disk.effects_singleton, ← Disk.effects_append] at kept
  rw [outcome]
  exact ⟨rfl, kept, fun asked => kept.shelf_eq_none_iff.2 rfl, _, rfl, proceeds⟩

/-! ## Rebuilding -/

/-- Every name of the list is that of the record that it leads to. -/
def Recorded (read : String → Except Refusal Bytes) (names : List String) : Prop :=
  ∀ name ∈ names, ∃ entry : Entry, name = recordName entry.key ∧ read name = .ok entry.record

theorem scan_recorded {read : String → Except Refusal Bytes} {names : List String}
    (recorded : Recorded read names) (index : Index) :
    (scan read names index).2 = [] ∧
      (index.keys.Nodup → (scan read names index).1.keys.Nodup) ∧
      ∀ key, (scan read names index).1.get? key =
        if recordName key ∈ names ∧ (read (recordName key)).toOption.bind embeddedKey? = some key then
          some (recordName key)
        else index.get? key := by
  induction names generalizing index with
  | nil => simp [scan]
  | cons name names induction =>
      obtain ⟨first, later⟩ := List.forall_mem_cons.1 recorded
      obtain ⟨entry, rfl, read_name⟩ := first
      have owner : (read (recordName entry.key)).toOption.bind embeddedKey? = some entry.key := by
        rw [read_name]
        exact embeddedKey?_record entry
      rw [scan, if_pos (isRecordName_recordName entry.key), owner]
      obtain ⟨silent, distinct, lookups⟩ := induction later (index.put entry.key (recordName entry.key))
      refine ⟨silent, fun start => distinct (Keyed.nodup_put start _ _), fun key => ?_⟩
      simp only
      rw [lookups, Keyed.get?_put]
      by_cases same : key = entry.key
      · simp [same, owner]
      · by_cases named : recordName key = recordName entry.key
        · have other : ¬ (read (recordName key)).toOption.bind embeddedKey? = some key := by
            rw [named, owner]
            exact fun equal => same (Option.some.inj equal).symm
          simp [other, same]
        · simp [named, same]

/-- An archive stays tidy when its index is written down anew in another order. -/
theorem Tidy.resave (tidy : archive.Tidy known disk home) {index : Index}
    (distinct : index.keys.Nodup) (same : ∀ key, index.get? key = archive.index.get? key)
    {after : Disk} (saved : Disk.Updates disk (indexAt home) (some (.file index.write)) after) :
    Tidy known { archive with index } after home ∧
      ∀ asked, shelf { archive with index } after asked = archive.shelf disk asked := by
  have housed := tidy.toHoused.update saved (by rw [tidy.saved]; simp) index
  have kept : Tidy known { archive with index } after home := by
    refine ⟨housed, distinct, ?_, ?_, saved.here, ?_⟩
    · intro key name found
      rw [same] at found
      rw [saved.elsewhere (recordAt_ne_indexAt home key)]
      exact tidy.indexed key name found
    · intro name node standing
      rw [saved.elsewhere (child_ne_indexAt home name)] at standing
      obtain ⟨key, found⟩ := tidy.listed name node standing
      exact ⟨key, (same key).trans found⟩
    · intro name node standing
      by_cases file : name = indexName
      · exact Or.inr file
      · rw [saved.elsewhere (by simpa [indexAt] using file)] at standing
        exact tidy.rest name node standing
  refine ⟨kept, fun asked => ?_⟩
  rw [shelf, shelf, same]
  cases found : archive.index.get? asked with
  | none => rfl
  | some name =>
      obtain ⟨_, rfl, _⟩ := tidy.indexed asked name found
      rw [Option.bind_some, Option.bind_some, kept.read_record, tidy.read_record,
        saved.elsewhere (recordAt_ne_indexAt home asked)]

/-- The key of the record that stands at a place. -/
def owner? : Option Node → Option String
  | some (.file bytes) => embeddedKey? bytes
  | _ => none

@[simp] theorem owner?_record (entry : Entry) :
    owner? (some (.file entry.record)) = some entry.key := embeddedKey?_record entry

/-- In the folder of records there are only records, each of them under the name that its key gives. -/
def Filed (disk : Disk) (home : Path) : Prop :=
  ∀ name node, disk.node? (recordsAt home ++ [name]) = some node →
    ∃ entry : Entry, name = recordName entry.key ∧ node = .file entry.record

/-- An index of the keys of the records. -/
structure Catalogs (index : Index) (disk : Disk) (home : Path) : Prop where
  distinct : index.keys.Nodup
  lookups : ∀ key, index.get? key =
    if owner? (disk.node? (recordAt home key)) = some key then some (recordName key) else none

theorem Housed.scan_filed (housed : archive.Housed disk home) (filed : Filed disk home) :
    let found := scan (fun name => disk.read (archive.records ++ [name]))
      (disk.names (recordsAt home)) []
    found.2 = [] ∧ Catalogs found.1 disk home := by
  have read_eq : ∀ key, disk.read (archive.records ++ [recordName key]) =
      disk.read (archive.place (recordName key)) := by
    intro key
    rw [place_recordName]
  have recorded : Recorded (fun name => disk.read (archive.records ++ [name]))
      (disk.names (recordsAt home)) := by
    intro name found
    obtain ⟨node, standing⟩ := Disk.mem_names.1 found
    obtain ⟨entry, rfl, rfl⟩ := filed name node standing
    refine ⟨entry, rfl, ?_⟩
    simp only [read_eq, housed.read_record, recordAt, standing]
  obtain ⟨silent, distinct, lookups⟩ := scan_recorded recorded []
  refine ⟨silent, distinct List.nodup_nil, fun key => ?_⟩
  rw [lookups, read_eq, housed.read_record]
  have listed : recordName key ∈ disk.names (recordsAt home) ↔
      ∃ node, disk.node? (recordAt home key) = some node := Disk.mem_names
  refine ite_congr (propext ?_) (fun _ => rfl) fun _ => rfl
  -- A record that is read stands in the folder, so being listed adds nothing.
  cases standing : disk.node? (recordAt home key) with
  | none => simp [listed, standing, owner?, Except.toOption]
  | some node =>
      obtain ⟨entry, named, rfl⟩ := filed _ node standing
      simp [listed, standing, owner?, Except.toOption]

/-- Rebuilding the index where there are only records makes the index of their keys, and changes nothing
but the file of the index. -/
theorem Housed.rebuild_filed (housed : archive.Housed disk home) (filed : Filed disk home)
    (no_folder : disk.node? (indexAt home) ≠ some .folder) :
    ∃ index, archive.rebuild disk = ⟨index.length, { archive with index },
        disk.effectsOf (saving home index), []⟩ ∧
      Catalogs index disk home ∧
      Disk.Updates disk (indexAt home) (some (.file index.write))
        (disk.perform (disk.effectsOf (saving home index))) := by
  have scanned := housed.scan_filed filed
  have listed := Disk.list_folder housed.legal_records housed.leads_records
  generalize found : scan (fun name => disk.read (archive.records ++ [name]))
    (disk.names (recordsAt home)) [] = result at scanned
  obtain ⟨index, notices⟩ := result
  obtain ⟨silent, catalogs⟩ := scanned
  simp only at silent catalogs
  obtain ⟨saved, updates⟩ := (housed.withIndex index).save_spec no_folder .unsavedRebuild
  refine ⟨index, ?_, catalogs, updates⟩
  simp only [Archive.rebuild, listed, found, saved, silent]
  rfl

theorem Tidy.filed (tidy : archive.Tidy known disk home) : Filed disk home := by
  intro name node standing
  obtain ⟨key, indexed⟩ := tidy.listed name node standing
  obtain ⟨_, rfl, entry, rfl, record⟩ := tidy.indexed key name indexed
  rw [recordAt] at record
  exact ⟨entry, rfl, Option.some.inj (standing.symm.trans record)⟩

/-- The records of a tidy archive say what its index says. -/
theorem Tidy.get?_eq (tidy : archive.Tidy known disk home) (key : String) :
    archive.index.get? key =
      if owner? (disk.node? (recordAt home key)) = some key then some (recordName key) else none := by
  cases indexed : archive.index.get? key with
  | some name =>
      obtain ⟨_, rfl, entry, rfl, record⟩ := tidy.indexed key name indexed
      rw [record, if_pos (owner?_record entry)]
  | none =>
      rw [if_neg]
      intro owner
      cases standing : disk.node? (recordAt home key) with
      | none =>
          rw [standing] at owner
          cases owner
      | some node =>
          obtain ⟨other, found⟩ := tidy.listed _ node standing
          obtain ⟨_, named, entry, own, record⟩ := tidy.indexed other _ found
          have same_place : recordAt home key = recordAt home other := by rw [recordAt, named, recordAt]
          rw [same_place, record, owner?_record, own] at owner
          rw [← Option.some.inj owner, found] at indexed
          cases indexed

/-- Rebuilding the index of a tidy archive changes no shelf. -/
theorem Tidy.rebuild (tidy : archive.Tidy known disk home) :
    (archive.rebuild disk).Leaves known archive disk home (archive.shelf disk) := by
  obtain ⟨index, outcome, catalogs, updates⟩ :=
    tidy.toHoused.rebuild_filed tidy.filed (by rw [tidy.saved]; simp)
  have same : ∀ key, index.get? key = archive.index.get? key := by
    intro key
    rw [catalogs.lookups, tidy.get?_eq]
  obtain ⟨kept, shelves⟩ := tidy.resave catalogs.distinct same updates
  have effects := (Disk.effects_singleton disk (saving home index)).symm
  rw [outcome]
  exact ⟨rfl, kept, shelves, _, effects, @proceeds_saving home [] (by simp) (by simp) index⟩

/-! ## Opening -/

theorem folders_records {root : Route} (leads : Disk.Leads disk [] root home)
    (legal : Route.isLegal (root ++ ["records"]) = true) :
    disk.folders (root ++ ["records"]) =
      match disk.node? (recordsAt home) with
      | some .folder => ([], true)
      | some (.file _) => ([], false)
      | none => ([.makeFolder (recordsAt home)], true) := by
  rw [Disk.folders, if_pos legal, leads.foldersFrom_append, Disk.foldersFrom_plain (by decide),
    recordsAt]
  cases disk.node? (home ++ ["records"]) with
  | none => rfl
  | some node => cases node <;> rfl

theorem sweep_eq_nil {route : Route} {folder : Path} (legal : route.isLegal = true)
    (leads : Disk.Leads disk [] route folder)
    (lasting : ∀ name node, disk.node? (folder ++ [name]) = some node →
      Disk.isTemporary name = false) : sweep disk route = [] := by
  have none_temporary : (disk.names folder).filter Disk.isTemporary = [] := by
    refine List.filter_eq_nil_iff.2 fun name found => ?_
    obtain ⟨node, standing⟩ := Disk.mem_names.1 found
    simp [lasting name node standing]
  rw [sweep, Disk.list_folder legal leads]
  simp only [none_temporary]
  rfl

/-- No file in the directory or among the records is still being written. -/
def Lasting (disk : Disk) (home : Path) : Prop :=
  ∀ folder ∈ [home, recordsAt home], ∀ name node, disk.node? (folder ++ [name]) = some node →
    Disk.isTemporary name = false

theorem Lasting.root (lasting : Lasting disk home) {name : String} {node : Node}
    (standing : disk.node? (home ++ [name]) = some node) : Disk.isTemporary name = false :=
  lasting home List.mem_cons_self name node standing

theorem Lasting.records (lasting : Lasting disk home) {name : String} {node : Node}
    (standing : disk.node? (recordsAt home ++ [name]) = some node) :
    Disk.isTemporary name = false :=
  lasting (recordsAt home) (by simp) name node standing

theorem Tidy.lasting (tidy : archive.Tidy known disk home) : Lasting disk home := by
  intro folder among name node standing
  rw [List.mem_cons, List.mem_singleton] at among
  rcases among with rfl | rfl
  · rcases tidy.rest name node standing with rfl | rfl <;> decide
  · obtain ⟨entry, rfl, _⟩ := tidy.filed name node standing
    exact isTemporary_recordName entry.key

theorem Housed.read_indexFile (housed : archive.Housed disk home)
    (saved : disk.node? (indexAt home) = some (.file archive.index.write)) :
    disk.read archive.indexFile = .ok archive.index.write := by
  rw [indexAt] at saved
  rw [indexFile, Disk.read_child housed.legal_index housed.leads (by decide), saved]

/-- The index is taken up as it stands in its file. -/
theorem Housed.recover_saved (housed : archive.Housed disk home)
    (distinct : archive.index.keys.Nodup)
    (saved : disk.node? (indexAt home) = some (.file archive.index.write)) :
    recover ⟨archive.root, []⟩ disk = ⟨(), archive, [], []⟩ := by
  have read : disk.read (archive.root ++ [indexName]) = .ok archive.index.write :=
    housed.read_indexFile saved
  simp only [recover, indexState, indexFile, read, Index.read?_write distinct]

/-- Where nothing is to be deleted, an archive is opened again as it was left. -/
theorem Housed.reopen (housed : archive.Housed disk home) (lasting : Lasting disk home)
    (distinct : archive.index.keys.Nodup)
    (saved : disk.node? (indexAt home) = some (.file archive.index.write)) :
    establish disk archive.root = ⟨true, archive, [], []⟩ := by
  have folders := folders_records housed.leads housed.legal_records
  rw [housed.records] at folders
  have outer : sweep disk archive.root = [] :=
    sweep_eq_nil housed.legal_root housed.leads fun _ _ => lasting.root
  have inner : sweep disk (archive.root ++ ["records"]) = [] :=
    sweep_eq_nil housed.legal_records housed.leads_records fun _ _ => lasting.records
  have recovered := housed.recover_saved distinct saved
  simp only [establish, Archive.records, folders, if_true, Disk.perform_nil, outer, inner, recovered,
    List.append_nil]

theorem Tidy.reopen (tidy : archive.Tidy known disk home) :
    establish disk archive.root = ⟨true, archive, [], []⟩ :=
  tidy.toHoused.reopen tidy.lasting tidy.distinct tidy.saved

/-- In the directory of an archive there is nothing but an empty folder of records. -/
structure Fresh (root : Route) (disk : Disk) (home : Path) : Prop
    extends Housed ⟨root, []⟩ disk home where
  nothing : ∀ name, disk.node? (recordsAt home ++ [name]) = none
  only : ∀ name node, disk.node? (home ++ [name]) = some node → name = "records"

namespace Fresh

variable {root : Route} {after : Disk}

/-- In an empty directory the folder of records is all that is made. -/
theorem of_empty (leads : Disk.Leads disk [] root home)
    (legal : ∀ key, Route.isLegal (root ++ ["records"] ++ [recordName key]) = true)
    (empty : ∀ path, path ≠ [] → disk.node? (home ++ path) = none) :
    Fresh root (disk.perform [.makeFolder (recordsAt home)]) home := by
  have no_records : disk.node? (recordsAt home) = none := empty ["records"] (by simp)
  have made : Disk.Updates disk (recordsAt home) (some .folder)
      (disk.perform [.makeFolder (recordsAt home)]) :=
    Disk.node?_set disk (by simp [recordsAt]) .folder
  have keeps := made.keepsFolders (by rw [no_records]; simp)
  refine ⟨⟨leads.keep keeps, made.here, legal⟩, fun name => ?_, fun name node standing => ?_⟩
  · rw [made.elsewhere (by simp), recordsAt, List.append_assoc]
    exact empty _ (by simp)
  · by_cases same : name = "records"
    · exact same
    · rw [made.elsewhere (by simpa [recordsAt] using same), empty _ (by simp)] at standing
      cases standing

theorem unsaved (fresh : Fresh root disk home) : disk.node? (indexAt home) = none := by
  cases standing : disk.node? (indexAt home) with
  | none => rfl
  | some node => exact absurd (fresh.only indexName node standing) (by decide)

theorem sweep_root (fresh : Fresh root disk home) : sweep disk root = [] := by
  refine sweep_eq_nil fresh.legal_root fresh.leads fun name node standing => ?_
  rw [fresh.only name node standing]
  decide

theorem sweep_records (fresh : Fresh root disk home) : sweep disk (root ++ ["records"]) = [] := by
  refine sweep_eq_nil fresh.legal_records fresh.leads_records fun name node standing => ?_
  rw [fresh.nothing name] at standing
  cases standing

theorem list_records (fresh : Fresh root disk home) :
    disk.list (root ++ ["records"]) = .ok [] := by
  have no_names : disk.names (recordsAt home) = [] := by
    refine List.eq_nil_iff_forall_not_mem.2 fun name found => ?_
    obtain ⟨node, standing⟩ := Disk.mem_names.1 found
    rw [fresh.nothing name] at standing
    cases standing
  have listed := Disk.list_folder fresh.legal_records fresh.leads_records
  rw [no_names] at listed
  exact listed

/-- Since there is no file of the index, an empty one is written. -/
theorem recover_eq (fresh : Fresh root disk home) {saving : List Effect}
    (saved : save ⟨root, []⟩ disk .unsavedRebuild = (saving, [])) :
    recover ⟨root, []⟩ disk = ⟨(), ⟨root, []⟩, saving, []⟩ := by
  have unread : disk.read (root ++ [indexName]) = .error .missing := by
    have unsaved := fresh.unsaved
    rw [indexAt] at unsaved
    rw [Disk.read_child fresh.legal_index fresh.leads (by decide), unsaved]
  simp only [recover, indexState, indexFile, unread, Archive.rebuild, Archive.records,
    fresh.list_records, scan, saved, List.append_nil]

theorem tidy (fresh : Fresh root disk home) (known : String → Prop)
    (updates : Disk.Updates disk (indexAt home) (some (.file (Index.write []))) after) :
    Tidy known ⟨root, []⟩ after home := by
  have no_folder : disk.node? (indexAt home) ≠ some .folder := by
    rw [fresh.unsaved]
    simp
  refine ⟨fresh.toHoused.update updates no_folder [], List.nodup_nil, ?_, ?_, updates.here, ?_⟩
  · intro key name found
    cases found
  · intro name node standing
    rw [updates.elsewhere (child_ne_indexAt home name), fresh.nothing name] at standing
    cases standing
  · intro name node standing
    by_cases same : name = indexName
    · exact Or.inr same
    · rw [updates.elsewhere (by simpa [indexAt] using same)] at standing
      exact Or.inl (fresh.only name node standing)

end Fresh

/-- In an empty directory an archive opens with nothing on any shelf. -/
theorem establish_empty {root : Route} (known : String → Prop)
    (leads : Disk.Leads disk [] root home)
    (legal : ∀ key, Route.isLegal (root ++ ["records"] ++ [recordName key]) = true)
    (empty : ∀ path, path ≠ [] → disk.node? (home ++ path) = none) :
    let outcome := establish disk root
    outcome.answer = true ∧ outcome.archive.root = root ∧
      Tidy known outcome.archive (disk.perform outcome.effects) home ∧
      ∀ asked, outcome.archive.shelf (disk.perform outcome.effects) asked = none := by
  have fresh := Fresh.of_empty leads legal empty
  obtain ⟨saved, updates⟩ :=
    fresh.save_spec (by rw [fresh.unsaved]; simp) .unsavedRebuild
  have no_records : disk.node? (recordsAt home) = none := empty ["records"] (by simp)
  have folders := folders_records leads (Disk.isLegal_of_append (legal ""))
  rw [no_records] at folders
  have outcome : establish disk root =
      ⟨true, ⟨root, []⟩, [.makeFolder (recordsAt home)] ++
        (disk.perform [.makeFolder (recordsAt home)]).effectsOf (saving home []), []⟩ := by
    simp only [establish, Archive.records, folders, if_true, fresh.sweep_root, Disk.perform_nil,
      fresh.sweep_records, fresh.recover_eq saved, List.append_nil]
  have kept := fresh.tidy known updates
  rw [← Disk.perform_append] at kept
  rw [outcome]
  exact ⟨rfl, rfl, kept, fun asked => kept.shelf_eq_none_iff.2 rfl⟩

end TieredCache.Archive
