import Mathlib.Data.List.Nodup
import TieredCache.Proofs.Archive.Reach
import TieredCache.Proofs.Archive.Rebuilding

/-!
# Opening an archive with or without its index

Before an archive takes up its index, its folders are made and files that were still being written are
deleted, which leaves the index and the records as they are. An index that can be read is then taken as it
is, and otherwise the records give the index that a rebuilding makes.
-/

namespace TieredCache

/-! ## Readying a disk -/

namespace Disk

variable {disk before middle after : Disk} {root : Route} {home folder : Path} {name : String} {bytes : Bytes}

/-- Whatever stands in a folder, the folder is there. -/
def Grounded (disk : Disk) : Prop :=
  ∀ folder name node, disk.node? (folder ++ [name]) = some node → disk.node? folder = some .folder

theorem grounded_of_all (checked : ∀ held ∈ disk.nodes, disk.node? held.1.dropLast = some .folder) :
    disk.Grounded := by
  intro folder name node standing
  rw [node?_of_ne_nil disk (by simp)] at standing
  obtain ⟨before, after, split, _⟩ := List.lookup_eq_some_iff.1 standing
  have listed : (folder ++ [name], node) ∈ disk.nodes := by
    rw [split]
    simp
  simpa using checked _ listed

/-- Folders may have been made, and files that were still being written deleted. -/
structure Readies (before after : Disk) : Prop where
  folders : KeepsFolders before after
  files : ∀ path bytes, after.node? path = some (.file bytes) → before.node? path = some (.file bytes)
  lasting : ∀ folder name bytes, isTemporary name = false →
    before.node? (folder ++ [name]) = some (.file bytes) →
      after.node? (folder ++ [name]) = some (.file bytes)

theorem Readies.trans (first : Readies before middle) (second : Readies middle after) :
    Readies before after where
  folders path standing := second.folders path (first.folders path standing)
  files path bytes standing := first.files path bytes (second.files path bytes standing)
  lasting folder name bytes lasts standing :=
    second.lasting folder name bytes lasts (first.lasting folder name bytes lasts standing)

theorem Makes.readies (makes : Makes before after) : Readies before after where
  folders path := makes.within path .folder
  files := makes.files
  lasting folder name bytes _ := makes.within (folder ++ [name]) (.file bytes)

/-- A file of a directory is read from a readied disk as before, unless it was still being written. -/
theorem Readies.read_iff {route : Route} (readies : Readies before after) (leads : Leads before [] route folder)
    (plain : Plain name) (lasts : isTemporary name = false) :
    after.read (route ++ [name]) = .ok bytes ↔ before.read (route ++ [name]) = .ok bytes := by
  rw [read_child_iff plain, read_child_iff plain]
  refine and_congr_right fun _ => ?_
  have leads_after := leads.keep readies.folders
  constructor
  · rintro ⟨other, leads_other, standing⟩
    obtain rfl := leads_other.unique leads_after
    exact ⟨other, leads, readies.files _ _ standing⟩
  · rintro ⟨other, leads_other, standing⟩
    obtain rfl := leads_other.unique leads
    exact ⟨other, leads_after, readies.lasting _ _ _ lasts standing⟩

end Disk

namespace Archive

variable {archive : Archive} {disk middle : Disk} {root : Route} {home : Path} {name key : String}

theorem readies_sweep (disk : Disk) (route : Route) :
    Disk.Readies disk (disk.perform (sweep disk route)) where
  folders := (thins_sweep disk route).folders
  files path bytes := (thins_sweep disk route).within path (.file bytes)
  lasting folder name bytes lasts standing := by
    rw [node?_sweep, if_neg]
    · exact standing
    · intro deleted
      obtain ⟨place, other, same, temporary, _⟩ := mem_sweep deleted
      obtain ⟨_, names⟩ := List.append_inj' (Effect.deleteFile.inj same) rfl
      rw [List.singleton_inj.1 names, temporary] at lasts
      cases lasts

/-- Opening readies the disk, and then takes up the index. -/
theorem establish_readies {root : Route} (made : (establish disk root).answer = true) :
    ∃ middle, Disk.Readies disk middle ∧
      (establish disk root).archive = (recover ⟨root, []⟩ middle).archive ∧
      disk.perform (establish disk root).effects =
        middle.perform (recover ⟨root, []⟩ middle).effects := by
  rcases folders : disk.folders (root ++ ["records"]) with ⟨makings, there⟩
  have makes := Disk.makes_folders disk (root ++ ["records"])
  rw [folders] at makes
  cases there with
  | false =>
      simp only [establish, records, folders] at made
      cases made
  | true =>
      simp only [establish, records, folders, if_true, Disk.perform_append]
      exact ⟨_, (makes.readies.trans (readies_sweep _ root)).trans (readies_sweep _ (root ++ ["records"])),
        rfl, rfl⟩

/-- The records are read from a readied disk as before. -/
theorem recordOf_readies (readies : Disk.Readies disk middle) (grounded : disk.Grounded)
    (leads : Disk.Leads disk [] root home) (key name : String) :
    RecordOf root middle key name ↔ RecordOf root disk key name := by
  constructor
  · rintro ⟨named, bytes, read, own⟩
    obtain ⟨path, located⟩ := Disk.read_eq_ok_iff.1 read
    obtain ⟨plain, folder, there, rfl⟩ := Disk.fileAt_child (Disk.fileAt_eq_ok_iff.2 ⟨bytes, located⟩)
    have standing := readies.files _ _ (Disk.stands_locate located)
    obtain ⟨rfl, _⟩ := (leads_records_iff (leads.keep readies.folders)).1 (Disk.folderAt_eq_ok_iff.1 there).2
    have leads_records := (leads_records_iff leads).2 ⟨rfl, grounded _ _ _ standing⟩
    exact ⟨named, bytes,
      (readies.read_iff leads_records plain (isTemporary_of_isRecordName named)).1 read, own⟩
  · rintro ⟨named, bytes, read, own⟩
    obtain ⟨path, located⟩ := Disk.read_eq_ok_iff.1 read
    obtain ⟨plain, folder, there, rfl⟩ := Disk.fileAt_child (Disk.fileAt_eq_ok_iff.2 ⟨bytes, located⟩)
    exact ⟨named, bytes, (readies.read_iff (Disk.folderAt_eq_ok_iff.1 there).2 plain
      (isTemporary_of_isRecordName named)).2 read, own⟩

/-! ## Taking up an index -/

theorem recover_of_sound {bytes : Bytes} {index : Index} (read : disk.read archive.indexFile = .ok bytes)
    (sound : Index.read? bytes = some index) :
    archive.recover disk = ⟨(), { archive with index }, [], []⟩ := by
  simp only [recover, indexState, read, sound]

theorem recover_of_unsound
    (unsound : ∀ bytes, disk.read archive.indexFile = .ok bytes → Index.read? bytes = none) :
    (archive.recover disk).archive = (archive.rebuild disk).archive := by
  have state : archive.indexState disk = .missing ∨ archive.indexState disk = .unreadable := by
    rw [indexState]
    cases read : disk.read archive.indexFile with
    | error refusal => cases refusal <;> simp
    | ok bytes => simp [unsound bytes read]
  rcases state with missing | unreadable
  · simp only [recover, missing]
  · simp only [recover, unreadable]

theorem single_congr
    (same : ∀ key name, RecordOf root middle key name ↔ RecordOf root disk key name)
    (single : Single root disk) : Single root middle :=
  fun key left right own_left own_right => single key left right ((same key left).1 own_left)
    ((same key right).1 own_right)

/-- An index that can be read is taken up as it is, and otherwise it is made anew from the records. -/
structure Reopens (root : Route) (disk : Disk) (opened : Outcome Bool) : Prop where
  directory : opened.archive.root = root
  sound : ∀ bytes index, disk.read (root ++ [indexName]) = .ok bytes → Index.read? bytes = some index →
    opened.archive.index = index ∧ (disk.perform opened.effects).read (root ++ [indexName]) = .ok bytes
  unsound : (∀ bytes, disk.read (root ++ [indexName]) = .ok bytes → Index.read? bytes = none) →
    Exact opened.archive.index root disk

theorem reopens (single : Single root disk) (there : disk.folderAt root = .ok home)
    (grounded : disk.Grounded) (made : (establish disk root).answer = true) :
    Reopens root disk (establish disk root) := by
  obtain ⟨middle, readies, taken_up, performed⟩ := establish_readies made
  obtain ⟨_, leads⟩ := Disk.folderAt_eq_ok_iff.1 there
  have index_file : ∀ bytes, middle.read (root ++ [indexName]) = .ok bytes ↔
      disk.read (root ++ [indexName]) = .ok bytes := fun bytes =>
    readies.read_iff leads plain_indexName (by decide)
  have same := recordOf_readies readies grounded leads
  refine ⟨?_, ?_, ?_⟩
  · rw [taken_up]
    exact (@recover_reach nothing (fun _ => nothing) ⟨root, []⟩ middle).1
  · intro bytes index read sound
    have read_middle := (index_file bytes).2 read
    have recovered := @recover_of_sound ⟨root, []⟩ middle bytes index read_middle sound
    rw [recovered] at taken_up performed
    rw [taken_up, performed]
    exact ⟨rfl, read_middle⟩
  · intro unsound
    have anew := @recover_of_unsound ⟨root, []⟩ middle fun bytes read =>
      unsound bytes ((index_file bytes).1 read)
    rw [taken_up, anew, (rebuild_spec ⟨root, []⟩ middle).1]
    have exact := exact_census (single_congr same single)
    exact ⟨exact.distinct, fun key name => (exact.pairs key name).trans (same key name)⟩

/-- The records alone give the index, in whatever order a disk lists them: it is saved, nothing else
changes, and a second rebuilding comes to the same. Opening the directory gives the same index too, unless
there is one that can be read. -/
theorem rebuild_exact {archive : Archive} {disk : Disk} (single : Single archive.root disk) :
    (∀ listed, Disk.Agree disk listed →
      let once := archive.rebuild listed
      let after := listed.perform once.effects
      let twice := once.archive.rebuild after
      Rebuilds archive disk listed once ∧
        (twice.archive = once.archive ∧ twice.answer = once.answer ∧
          Disk.Agree after (after.perform twice.effects)) ∧
        ∀ again, Disk.Agree after again →
          Rebuilds once.archive after again (once.archive.rebuild again) ∧
            (once.archive.rebuild again).archive.index.Perm once.archive.index) ∧
      ∀ home, disk.folderAt archive.root = .ok home → disk.Grounded →
        (establish disk archive.root).answer = true →
          Reopens archive.root disk (establish disk archive.root) := by
  refine ⟨fun listed agree => ?_, fun home there grounded made => reopens single there grounded made⟩
  have once := rebuilds single agree
  refine ⟨once, rebuild_again archive listed, fun again agree_again => ?_⟩
  have same : ∀ key name, RecordOf archive.root (listed.perform (archive.rebuild listed).effects) key name ↔
      RecordOf archive.root disk key name := recordOf_congr once.records
  have twice := @rebuilds (archive.rebuild listed).archive _ again
    (by rw [once.root]; exact single_congr same single) agree_again
  refine ⟨twice, (List.perm_ext_iff_of_nodup ?_ ?_).2 fun pair => ?_⟩
  · exact List.Nodup.of_map Prod.fst twice.exact.distinct
  · exact List.Nodup.of_map Prod.fst once.exact.distinct
  · rw [twice.exact.pairs pair.1 pair.2, once.root, same, ← once.exact.pairs]

/-- A directory with an index that cannot be read and one record under a name of its own. Beside it there are
a file without a record, a folder, and records under names that are not those of records. -/
def cluttered : Disk :=
  ⟨[(["cache"], .folder), (["cache", "records"], .folder), (["cache", "index.json"], .file []),
    (["cache", "records", ".json"], .file (Entry.new "hidden" [] .epoch).record),
    (["cache", "records", "garbage.json"], .file []),
    (["cache", "records", "nested.json"], .folder),
    (["cache", "records", "odd.json"], .file (Entry.new "orphan" [] .epoch).record),
    (["cache", "records", "note.txt"], .file (Entry.new "noted" [] .epoch).record)]⟩

theorem recordOf_cluttered (key name : String) :
    RecordOf ["cache"] cluttered key name ↔ key = "orphan" ∧ name = "odd.json" := by
  constructor
  · rintro ⟨named, bytes, read, own⟩
    obtain ⟨names, listing, among⟩ := Disk.mem_list_of_read read
    have listed : cluttered.list (["cache"] ++ ["records"]) =
        .ok [".json", "garbage.json", "nested.json", "odd.json", "note.txt"] := by
      decide +kernel
    cases listing.symm.trans listed
    simp only [List.mem_cons, List.not_mem_nil, or_false] at among
    rcases among with rfl | rfl | rfl | rfl | rfl
    · exact absurd named (by decide)
    · have empty : cluttered.read (["cache"] ++ ["records"] ++ ["garbage.json"]) = .ok [] := by rfl
      cases empty.symm.trans read
      cases own
    · have folder : cluttered.read (["cache"] ++ ["records"] ++ ["nested.json"]) = .error .obstacle := by rfl
      cases folder.symm.trans read
    · have record : cluttered.read (["cache"] ++ ["records"] ++ ["odd.json"]) =
          .ok (Entry.new "orphan" [] .epoch).record := by rfl
      cases record.symm.trans read
      exact ⟨Option.some.inj (own.symm.trans (embeddedKey?_record _)), rfl⟩
    · exact absurd named (by decide)
  · rintro ⟨rfl, rfl⟩
    exact ⟨by decide, _, by rfl, embeddedKey?_record _⟩

/-- An index of the cluttered directory leads from the one key to the one record. -/
theorem Exact.eq_of_cluttered {index : Index} (exact : Exact index ["cache"] cluttered) :
    index = [("orphan", "odd.json")] := by
  refine List.perm_singleton.1 ((List.perm_ext_iff_of_nodup ?_ (List.nodup_singleton _)).2 fun pair => ?_)
  · exact List.Nodup.of_map Prod.fst exact.distinct
  · rw [exact.pairs pair.1 pair.2, recordOf_cluttered, List.mem_singleton, Prod.ext_iff]

theorem savable_cluttered : Savable ⟨["cache"], []⟩ cluttered ["cache"] :=
  ⟨(Disk.folderAt_eq_ok_iff.1 rfl).2, by decide +kernel, by decide +kernel⟩

/-- In the cluttered directory the index is made of the one record, from the last name to the first, and
written over the one that cannot be read, and by opening. -/
theorem rebuild_exact_cluttered :
    Single ["cache"] cluttered ∧
      (∃ listed, Disk.Agree cluttered listed ∧ listed.names ["cache", "records"] =
          ["note.txt", "odd.json", "nested.json", "garbage.json", ".json"] ∧
        Rebuilds ⟨["cache"], []⟩ cluttered listed (rebuild ⟨["cache"], []⟩ listed) ∧
        ∃ bytes, (listed.perform (rebuild ⟨["cache"], []⟩ listed).effects).read ["cache", "index.json"] =
            .ok bytes ∧
          Index.read? bytes = some [("orphan", "odd.json")]) ∧
      cluttered.folderAt ["cache"] = .ok ["cache"] ∧ cluttered.Grounded ∧
      (establish cluttered ["cache"]).answer = true ∧
      Reopens ["cache"] cluttered (establish cluttered ["cache"]) := by
  have single : Single ["cache"] cluttered := by
    intro key left right own_left own_right
    rw [((recordOf_cluttered key left).1 own_left).2, ((recordOf_cluttered key right).1 own_right).2]
  obtain ⟨anew, opened⟩ := @rebuild_exact ⟨["cache"], []⟩ cluttered single
  obtain ⟨listed, agree, order⟩ := @Disk.exists_relisted cluttered ["cache", "records"]
    ["note.txt", "odd.json", "nested.json", "garbage.json", ".json"] (by decide +kernel)
  have rebuilt := (anew listed agree).1
  obtain ⟨bytes, read, decoded⟩ := rebuilt.saved (rebuilt.noted.2 ⟨["cache"], savable_cluttered⟩)
  rw [indexFile, rebuilt.root] at read
  rw [rebuilt.exact.eq_of_cluttered] at decoded
  have there : cluttered.folderAt ["cache"] = .ok ["cache"] := by rfl
  have grounded : cluttered.Grounded := Disk.grounded_of_all (by decide +kernel)
  have made : (establish cluttered ["cache"]).answer = true := by decide +kernel
  exact ⟨single, ⟨listed, agree, order, rebuilt, bytes, read, decoded⟩, there, grounded, made,
    opened ["cache"] there grounded made⟩

end Archive

end TieredCache
