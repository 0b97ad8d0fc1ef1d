import Mathlib.Data.List.Basic
import TieredCache.Proofs.Archive.Upkeep

/-!
# Opening after an interruption

An interruption may leave files that were still being written. Opening the archive deletes them, and
takes up the index that stands in its file.
-/

namespace TieredCache

/-! ## Files that were being written -/

namespace Disk

/-- The name of a file that is being written in a folder where no other one is. -/
def stray : String := temporaryName []

theorem plain_stray : Plain stray := by decide +kernel

variable {clean disk : Disk} {folder : Path}

theorem scratch_eq (lasting : ∀ name node, clean.node? (folder ++ [name]) = some node →
    isTemporary name = false) : clean.scratch folder = folder ++ [stray] := by
  have none_temporary : (clean.names folder).filter isTemporary = [] := by
    refine List.filter_eq_nil_iff.2 fun name found => ?_
    obtain ⟨node, standing⟩ := mem_names.1 found
    simp [lasting name node standing]
  rw [scratch, stray, temporaryName, none_temporary, temporaryName, List.filter_nil]

theorem Littered.keepsFolders {folders : List Path} (littered : Littered folders clean disk) :
    KeepsFolders clean disk := by
  intro path standing
  rcases littered path with same | ⟨folder, _, rfl, _⟩
  · rw [same, standing]
  · rw [clean.node?_scratch] at standing
    cases standing

/-- Deleting files of a folder clears their places. -/
theorem node?_deletions (disk : Disk) (folder : Path) (names : List String) (path : Path) :
    (disk.perform (names.map fun name => .deleteFile (folder ++ [name]))).node? path =
      if path ∈ names.map (fun name => folder ++ [name]) then none else disk.node? path := by
  induction names generalizing disk with
  | nil => rfl
  | cons name names induction =>
      have deleted := updates_deleteFile disk (show folder ++ [name] ≠ [] by simp)
      rw [List.map_cons, perform_cons, induction, deleted]
      by_cases here : path = folder ++ [name]
      · simp [here]
      · simp [here]

end Disk

namespace Archive

variable {archive : Archive} {clean disk : Disk} {home : Path}

/-- A sweep deletes the files of a folder that were still being written. -/
theorem sweep_spec {route : Route} {folder : Path} (legal : route.isLegal = true)
    (leads : Disk.Leads disk [] route folder)
    (deletable : ∀ name node, disk.node? (folder ++ [name]) = some node →
      Disk.isTemporary name = true → Disk.Plain name ∧ Route.isLegal (route ++ [name]) = true ∧
        ∃ bytes, node = .file bytes) :
    ∃ names : List String, (∀ name, name ∈ names ↔ name ∈ disk.names folder ∧
        Disk.isTemporary name = true) ∧
      sweep disk route = names.map fun name => .deleteFile (folder ++ [name]) := by
  refine ⟨(disk.names folder).filter Disk.isTemporary, fun name => List.mem_filter, ?_⟩
  rw [sweep, Disk.list_folder legal leads]
  refine List.filterMap_eq_map_iff_forall_eq_some.2 fun name among => ?_
  obtain ⟨listed, temporary⟩ := List.mem_filter.1 among
  obtain ⟨node, standing⟩ := Disk.mem_names.1 listed
  obtain ⟨plain, short, bytes, rfl⟩ := deletable name node standing temporary
  rw [Disk.deletion_child short leads plain, standing]
  rfl

/-- After a sweep of a folder, only the other folders may hold a file that was still being written. -/
theorem sweep_littered {folders : List Path} {route : Route} {folder : Path}
    (legal : route.isLegal = true) (leads : Disk.Leads disk [] route folder)
    (short : Route.isLegal (route ++ [Disk.stray]) = true)
    (lasting : ∀ name node, clean.node? (folder ++ [name]) = some node →
      Disk.isTemporary name = false)
    (littered : Disk.Littered (folder :: folders) clean disk) :
    Disk.Littered folders clean (disk.perform (sweep disk route)) := by
  have deletable : ∀ name node, disk.node? (folder ++ [name]) = some node →
      Disk.isTemporary name = true → Disk.Plain name ∧ Route.isLegal (route ++ [name]) = true ∧
        ∃ bytes, node = .file bytes := by
    intro name node standing temporary
    rcases littered (folder ++ [name]) with same | ⟨other, _, place, bytes, file⟩
    · rw [same] at standing
      rw [lasting name node standing] at temporary
      cases temporary
    · obtain ⟨rfl, _⟩ := List.append_inj' place rfl
      rw [Disk.scratch_eq lasting] at place
      obtain rfl : name = Disk.stray := by simpa using place
      exact ⟨Disk.plain_stray, short, bytes, Option.some.inj (standing.symm.trans file)⟩
  obtain ⟨names, temporaries, swept⟩ := sweep_spec legal leads deletable
  intro path
  rw [swept, Disk.node?_deletions]
  by_cases gone : path ∈ names.map fun name => folder ++ [name]
  · rw [if_pos gone]
    obtain ⟨name, among, rfl⟩ := List.mem_map.1 gone
    refine Or.inl ?_
    cases standing : clean.node? (folder ++ [name]) with
    | none => rfl
    | some node =>
        have temporary := ((temporaries name).1 among).2
        rw [lasting name node standing] at temporary
        cases temporary
  · rw [if_neg gone]
    rcases littered path with same | ⟨other, among, rfl, bytes, file⟩
    · exact Or.inl same
    · rcases List.mem_cons.1 among with rfl | among
      · have temporary := Disk.isTemporary_temporaryName (clean.names other)
        have listed := Disk.mem_names.2 ⟨_, file⟩
        exact absurd (List.mem_map_of_mem ((temporaries _).2 ⟨listed, temporary⟩)) gone
      · exact Or.inr ⟨other, among, rfl, bytes, file⟩

/-! ## Opening -/

/-- The name of a file that is being written is shorter than that of a record. -/
theorem Housed.legal_stray (housed : archive.Housed disk home) :
    Route.isLegal (archive.root ++ [Disk.stray]) = true ∧
      Route.isLegal (archive.records ++ [Disk.stray]) = true := by
  have short := (Disk.isLegal_iff.1 (housed.legal "")).1
  have record : Route.size [recordName ""] = 46 := by
    simp [Route.size, utf8ByteSize_recordName]
  have file : Route.size [Disk.stray] = 9 := by decide +kernel
  have clean : Route.isLegal [Disk.stray] = true := by decide +kernel
  rw [Disk.size_append, record] at short
  have root_short := short
  rw [Archive.records, Disk.size_append] at root_short
  constructor
  · refine Disk.isLegal_iff.2 ⟨by rw [Disk.size_append, file]; omega, fun name among => ?_⟩
    rcases List.mem_append.1 among with among | among
    · exact (Disk.isLegal_iff.1 housed.legal_root).2 name among
    · exact (Disk.isLegal_iff.1 clean).2 name among
  · refine Disk.isLegal_iff.2 ⟨by rw [Disk.size_append, file]; omega, fun name among => ?_⟩
    rcases List.mem_append.1 among with among | among
    · exact (Disk.isLegal_iff.1 housed.legal_records).2 name among
    · exact (Disk.isLegal_iff.1 clean).2 name among

theorem Housed.keep (housed : archive.Housed clean home) (keeps : Disk.KeepsFolders clean disk) :
    archive.Housed disk home :=
  ⟨housed.leads.keep keeps, keeps _ housed.records, housed.legal⟩

/-- Opening an archive deletes the files that were still being written, and leaves all else alone. -/
theorem Housed.establish_littered (housed : archive.Housed clean home)
    (lasting : Lasting clean home) (distinct : archive.index.keys.Nodup)
    (saved : clean.node? (indexAt home) = some (.file archive.index.write))
    (littered : Disk.Littered [home, recordsAt home] clean disk) :
    ∃ effects, establish disk archive.root = ⟨true, archive, effects, []⟩ ∧
      ∀ path, (disk.perform effects).node? path = clean.node? path := by
  obtain ⟨root_short, records_short⟩ := housed.legal_stray
  have housed_littered := housed.keep littered.keepsFolders
  have outer : Disk.Littered [recordsAt home] clean (disk.perform (sweep disk archive.root)) :=
    sweep_littered housed.legal_root housed_littered.leads root_short (fun _ _ => lasting.root)
      littered
  generalize middle_eq : disk.perform (sweep disk archive.root) = middle at outer
  have housed_outer := housed.keep outer.keepsFolders
  have inner : Disk.Littered [] clean (middle.perform (sweep middle archive.records)) :=
    sweep_littered housed.legal_records housed_outer.leads_records records_short
      (fun _ _ => lasting.records) outer
  have same : ∀ path,
      (middle.perform (sweep middle archive.records)).node? path = clean.node? path := by
    intro path
    rcases inner path with same | ⟨_, among, _⟩
    · exact same
    · cases among
  have recovered := (housed.keep inner.keepsFolders).recover_saved distinct
    ((same _).trans saved)
  have folders := folders_records housed_littered.leads housed.legal_records
  rw [housed_littered.records] at folders
  rw [Archive.records] at recovered same
  refine ⟨sweep disk archive.root ++ sweep middle (archive.root ++ ["records"]), ?_, ?_⟩
  · simp only [establish, Archive.records, folders, if_true, Disk.perform_nil, middle_eq, recovered,
      List.append_nil, List.nil_append]
  · rw [Disk.perform_append, middle_eq]
    exact same

end Archive

end TieredCache
