import TieredCache.Proofs.Disk.Reach
import TieredCache.Proofs.Entry.Names
import TieredCache.Proofs.Keyed

/-!
# What operations on an archive reach

Whatever is on the disk and in the index, an operation deletes the files to which certain names lead,
writes a record under the name of its key, and writes the index. It touches nothing else.
-/

namespace TieredCache

namespace Archive

/-! ## Strokes of an archive -/

/-- A stroke of an operation that may delete files by certain names and keep certain entries. -/
inductive Deals (archive : Archive) (disk : Disk) (deletes : String → Prop)
    (keeps : String → Entry → Prop) : Stroke → Prop where
  | saves {folder : Path} (index : Index) (there : disk.folderAt archive.root = .ok folder)
      (legal : Route.isLegal archive.indexFile = true)
      (free : disk.node? (folder ++ [indexName]) ≠ some .folder) :
      Deals archive disk deletes keeps ⟨folder, indexName, some index.write⟩
  | keeps {folder : Path} {key : String} {entry : Entry} (kept : keeps key entry)
      (there : disk.folderAt archive.records = .ok folder)
      (legal : Route.isLegal (archive.records ++ [recordName key]) = true)
      (free : disk.node? (folder ++ [recordName key]) ≠ some .folder) :
      Deals archive disk deletes keeps ⟨folder, recordName key, some entry.record⟩
  | deletes {stroke : Stroke} {name : String} (deleted : deletes name) (gone : stroke.contents = none)
      (there : disk.fileAt (archive.place name) = .ok stroke.path) :
      Deals archive disk deletes keeps stroke

/-- The effects of an operation that may delete files by certain names and keep certain entries. -/
def Touches (archive : Archive) (disk : Disk) (deletes : String → Prop) (keeps : String → Entry → Prop)
    (effects : List Effect) : Prop :=
  ∃ strokes, effects = disk.effects strokes ∧ ∀ stroke ∈ strokes, archive.Deals disk deletes keeps stroke

/-- No name, or no entry. -/
abbrev nothing {α : Type} : α → Prop := fun _ => False

variable {archive other : Archive} {disk before after : Disk} {deletes : String → Prop}
  {keeps : String → Entry → Prop} {stroke : Stroke} {effects later : List Effect}

theorem Deals.free (deals : archive.Deals disk deletes keeps stroke) :
    disk.node? stroke.path ≠ some .folder := by
  cases deals with
  | saves index there legal free => exact free
  | keeps kept there legal free => exact free
  | deletes deleted gone there =>
      obtain ⟨bytes, standing⟩ := Disk.file_of_fileAt there
      rw [standing]
      simp

/-- A stroke that deletes nothing does not depend on the files. -/
theorem Deals.congr (same : Disk.SameFolders before after) (root : other.root = archive.root)
    (deals : other.Deals after nothing keeps stroke) :
    archive.Deals before deletes keeps stroke := by
  cases deals with
  | saves index there legal free =>
      rw [root, same.folderAt_iff] at there
      rw [indexFile, root] at legal
      exact .saves index there legal fun folder => free ((same _).2 folder)
  | keeps kept there legal free =>
      rw [records, root, same.folderAt_iff] at there
      rw [records, root] at legal
      exact .keeps kept there legal fun folder => free ((same _).2 folder)
  | deletes deleted gone there => exact deleted.elim

theorem Touches.nil : archive.Touches disk deletes keeps [] := ⟨[], rfl, List.forall_mem_nil _⟩

theorem Touches.mono {more : String → Prop} {keeps_more : String → Entry → Prop}
    (touches : archive.Touches disk deletes keeps effects) (names : ∀ name, deletes name → more name)
    (entries : ∀ key entry, keeps key entry → keeps_more key entry) :
    archive.Touches disk more keeps_more effects := by
  obtain ⟨strokes, same, deals⟩ := touches
  refine ⟨strokes, same, fun stroke among => ?_⟩
  cases deals stroke among with
  | saves index there legal free => exact .saves index there legal free
  | keeps kept there legal free => exact .keeps (entries _ _ kept) there legal free
  | deletes deleted gone there => exact .deletes (names _ deleted) gone there

theorem Touches.sameFolders (touches : archive.Touches disk deletes keeps effects) :
    Disk.SameFolders disk (disk.perform effects) := by
  obtain ⟨strokes, rfl, deals⟩ := touches
  exact Disk.sameFolders_effects fun stroke among => (deals stroke among).free

/-- An operation goes on with what deletes nothing. -/
theorem Touches.append (first : archive.Touches disk deletes keeps effects)
    (second : other.Touches (disk.perform effects) nothing keeps later)
    (root : other.root = archive.root) :
    archive.Touches disk deletes keeps (effects ++ later) := by
  have folders := first.sameFolders
  obtain ⟨strokes, rfl, deals⟩ := first
  obtain ⟨more, rfl, deals_later⟩ := second
  refine ⟨strokes ++ more, (Disk.effects_append disk strokes more).symm, fun stroke among => ?_⟩
  rcases List.mem_append.1 among with among | among
  · exact deals stroke among
  · exact (deals_later stroke among).congr folders root

/-- A file of an archive in a directory: its index, or the record of an entry that was kept. -/
inductive Writes (root : Route) (disk : Disk) (keeps : String → Entry → Prop) (path : Path)
    (bytes : Bytes) : Prop where
  | index {folder : Path} (index : Index) (there : disk.folderAt root = .ok folder)
      (place : path = folder ++ [indexName]) (text : bytes = index.write)
  | record {folder : Path} {key : String} {entry : Entry} (kept : keeps key entry)
      (there : disk.folderAt (root ++ ["records"]) = .ok folder) (place : path = folder ++ [recordName key])
      (text : bytes = entry.record)

theorem Writes.mono {root : Route} {keeps_more : String → Entry → Prop} {path : Path} {bytes : Bytes}
    (writes : Writes root disk keeps path bytes)
    (entries : ∀ key entry, keeps key entry → keeps_more key entry) :
    Writes root disk keeps_more path bytes := by
  cases writes with
  | index index there place text => exact .index index there place text
  | record kept there place text => exact .record (entries _ _ kept) there place text

/-- A file that an operation leaves stood there before, or is the index, or a record of what is kept. -/
theorem Touches.writes (touches : archive.Touches disk deletes keeps effects) {path : Path} {bytes : Bytes}
    (standing : (disk.perform effects).node? path = some (.file bytes)) :
    disk.node? path = some (.file bytes) ∨
      Writes archive.root (disk.perform effects) keeps path bytes := by
  have folders := touches.sameFolders
  obtain ⟨strokes, rfl, deals⟩ := touches
  rcases disk.node?_effects_cases strokes path with still | ⟨stroke, among, rfl, left⟩
  · exact .inl (still.symm.trans standing)
  · have contents := left.symm.trans standing
    cases deals stroke among with
    | saves index there legal free =>
        cases contents
        exact .inr (.index index (folders.folderAt_iff.2 there) rfl rfl)
    | keeps kept there legal free =>
        cases contents
        exact .inr (.record kept (folders.folderAt_iff.2 there) rfl rfl)
    | deletes deleted gone there =>
        rw [Stroke.node?, gone] at contents
        cases contents

/-! ## Operations -/

theorem touches_save (archive : Archive) (disk : Disk) (failure : Notice) :
    archive.Touches disk deletes keeps (archive.save disk failure).1 := by
  unfold save
  split
  · rename_i effects replaces
    obtain ⟨folder, there, legal, free, rfl⟩ := Disk.replacement_eq_ok (by decide +kernel) replaces
    refine ⟨[⟨folder, indexName, some archive.index.write⟩], by simp, fun stroke among => ?_⟩
    obtain rfl := List.mem_singleton.1 among
    exact .saves archive.index there legal free
  · exact .nil

/-- A spill writes the record of its entry and the index. -/
theorem touches_spill (archive : Archive) (disk : Disk) (key : String) (entry : Entry) :
    archive.Touches disk nothing (fun kept held => kept = key ∧ held = entry)
      (archive.spill disk key entry).effects := by
  unfold spill
  simp only
  split
  · exact .nil
  · rename_i effects replaces
    obtain ⟨folder, there, legal, free, rfl⟩ := Disk.replacement_eq_ok (plain_recordName key) replaces
    have kept : archive.Touches disk nothing (fun kept held => kept = key ∧ held = entry)
        (disk.effectsOf ⟨folder, recordName key, some entry.record⟩) := by
      refine ⟨[⟨folder, recordName key, some entry.record⟩], by simp, fun stroke among => ?_⟩
      obtain rfl := List.mem_singleton.1 among
      exact .keeps ⟨rfl, rfl⟩ there legal free
    exact kept.append (touches_save _ _ _) rfl

theorem touches_forget (archive : Archive) (disk : Disk) (key : String) :
    archive.Touches disk deletes keeps (archive.forget disk key).effects := by
  unfold forget
  split
  · exact Touches.nil.append (touches_save _ _ _) rfl
  · exact .nil

/-- The effects that delete the file of a name, if it is there. -/
theorem touches_deletion (archive : Archive) (disk : Disk) (name : String) :
    archive.Touches disk (fun other => name = other) keeps
      (match disk.deletion (archive.place name) with
      | .ok effect => [effect]
      | .error _ => []) := by
  split
  · rename_i effect deletes
    obtain ⟨stroke, same, gone, there⟩ := Disk.deletion_eq_ok deletes
    refine ⟨[stroke], by rw [same, Disk.effects_singleton], fun other among => ?_⟩
    obtain rfl := List.mem_singleton.1 among
    exact .deletes rfl gone there
  · exact .nil

/-- Acting on a verdict deletes the file that was found corrupt and writes the index. -/
theorem touches_settle (archive : Archive) (disk : Disk) (key : String) (verdict : Verdict) :
    archive.Touches disk (fun name => verdict = .corrupt name) keeps
      (archive.settle disk key verdict).effects := by
  cases verdict with
  | absent => exact .nil
  | sound entry => exact .nil
  | unread => exact .nil
  | missing => exact touches_forget archive disk key
  | corrupt name =>
      simp only [Verdict.corrupt.injEq]
      have deletion : archive.Touches disk (fun other => name = other) keeps _ :=
        touches_deletion archive disk name
      exact deletion.append (touches_forget archive _ key) rfl

/-- A removal deletes the file that the index names for its key, or that of its record, and writes the
index. -/
theorem touches_remove (archive : Archive) (disk : Disk) (key : String) :
    archive.Touches disk (fun name => (archive.index.get? key).getD (recordName key) = name) keeps
      (archive.remove disk key).effects := by
  have deletion := @touches_deletion keeps archive disk ((archive.index.get? key).getD (recordName key))
  unfold remove
  split at deletion
  · rename_i effect deletes
    simp only [deletes]
    split
    · exact deletion.append (touches_save _ _ _) rfl
    · exact deletion
  · rename_i refusal refused
    cases refusal with
    | missing =>
        simp only [refused]
        split
        · exact deletion.append (touches_save _ _ _) rfl
        · exact deletion
    | obstacle =>
        simp only [refused]
        split
        · exact deletion.append (touches_save _ _ _) rfl
        · exact deletion

/-- A removal takes its key out of the index, and does nothing else to it. -/
theorem archive_remove (archive : Archive) (disk : Disk) (key : String) :
    (archive.remove disk key).archive = { archive with index := archive.index.erase key } := by
  unfold remove
  dsimp only
  split
  · rfl
  · rename_i absent
    have none : archive.index.get? key = none := by simpa using absent
    rw [Keyed.erase_of_not_mem (Keyed.get?_eq_none_iff.1 none)]

theorem strokes_deleteAll (archive : Archive) (disk : Disk) (names : List String) :
    ∃ strokes, (archive.deleteAll disk names).1 = disk.effects strokes ∧
      ∀ stroke ∈ strokes, stroke.contents = none ∧
        ∃ name ∈ names, disk.fileAt (archive.place name) = .ok stroke.path := by
  induction names generalizing disk with
  | nil => exact ⟨[], rfl, List.forall_mem_nil _⟩
  | cons name names induction =>
      rw [deleteAll]
      cases deletes : disk.deletion (archive.place name) with
      | ok effect =>
          obtain ⟨stroke, same, gone, there⟩ := Disk.deletion_eq_ok deletes
          obtain ⟨bytes, standing⟩ := Disk.file_of_fileAt there
          have applied : disk.apply effect = disk.perform (disk.effectsOf stroke) := by
            rw [← same]
            rfl
          -- What is there after one file has been deleted was there before.
          have thins := Disk.thins_effectsOf gone (by rw [standing]; simp)
          obtain ⟨strokes, rest, deletions⟩ := induction (disk.apply effect)
          refine ⟨stroke :: strokes, ?_, fun other among => ?_⟩
          · rw [Disk.effects_cons, ← same]
            exact congrArg (effect :: ·) rest
          · rcases List.mem_cons.1 among with rfl | among
            · exact ⟨gone, name, List.mem_cons_self, there⟩
            · obtain ⟨gone_later, found, listed, there_later⟩ := deletions other among
              rw [applied] at there_later
              exact ⟨gone_later, found, List.mem_cons_of_mem _ listed, thins.within.fileAt there_later⟩
      | error refusal =>
          obtain ⟨strokes, rest, deletions⟩ := induction disk
          refine ⟨strokes, by cases refusal <;> exact rest, fun other among => ?_⟩
          obtain ⟨gone, found, listed, there⟩ := deletions other among
          exact ⟨gone, found, List.mem_cons_of_mem _ listed, there⟩

/-- Deleting the files of a list of names deletes those that are there. -/
theorem touches_deleteAll (archive : Archive) (disk : Disk) (names : List String) :
    archive.Touches disk (· ∈ names) keeps (archive.deleteAll disk names).1 := by
  obtain ⟨strokes, same, deletions⟩ := strokes_deleteAll archive disk names
  refine ⟨strokes, same, fun stroke among => ?_⟩
  obtain ⟨gone, name, listed, there⟩ := deletions stroke among
  exact .deletes listed gone there

/-- A clearing deletes the files that the index names, and writes the index. -/
theorem touches_clear (archive : Archive) (disk : Disk) :
    archive.Touches disk (· ∈ archive.index.map Prod.snd) keeps (archive.clear disk).effects :=
  (touches_deleteAll archive disk _).append (touches_save _ _ _) rfl

theorem touches_rebuild (archive : Archive) (disk : Disk) :
    archive.Touches disk deletes keeps (archive.rebuild disk).effects := by
  unfold rebuild
  exact Touches.nil.append (touches_save _ _ _) rfl

/-! ## Opening -/

/-- A sweep deletes files with temporary names. -/
theorem mem_sweep {route : Route} {effect : Effect} (swept : effect ∈ sweep disk route) :
    ∃ folder name, effect = .deleteFile (folder ++ [name]) ∧ Disk.isTemporary name = true ∧
      ∃ bytes, disk.node? (folder ++ [name]) = some (.file bytes) := by
  unfold sweep at swept
  split at swept
  · obtain ⟨name, among, deletes⟩ := List.mem_filterMap.1 swept
    have temporary := (List.mem_filter.1 among).2
    obtain ⟨path, found, rfl⟩ : ∃ path, disk.fileAt (route ++ [name]) = .ok path ∧
        effect = .deleteFile path := by
      rw [Disk.deletion] at deletes
      cases found : disk.fileAt (route ++ [name]) with
      | error refusal =>
          rw [found] at deletes
          cases deletes
      | ok path =>
          rw [found] at deletes
          exact ⟨path, rfl, (Option.some.inj deletes).symm⟩
    obtain ⟨_, folder, _, rfl⟩ := Disk.fileAt_child found
    exact ⟨folder, name, rfl, temporary, Disk.file_of_fileAt found⟩
  · cases swept

theorem node?_sweep (disk : Disk) (route : Route) (path : Path) :
    (disk.perform (sweep disk route)).node? path =
      if .deleteFile path ∈ sweep disk route then none else disk.node? path := by
  refine Disk.node?_perform_deletions (fun effect swept => ?_) path
  obtain ⟨folder, name, rfl, _⟩ := mem_sweep swept
  exact ⟨_, rfl, by simp⟩

theorem thins_sweep (disk : Disk) (route : Route) :
    Disk.Thins disk (disk.perform (sweep disk route)) := by
  refine ⟨fun path node standing => ?_, fun path folder => ?_⟩
  · rw [node?_sweep] at standing
    split at standing
    · cases standing
    · exact standing
  · rw [node?_sweep, if_neg]
    · exact folder
    · intro swept
      obtain ⟨place, name, same, _, bytes, file⟩ := mem_sweep swept
      rw [← (Effect.deleteFile.inj same), folder] at file
      cases file

/-- A file that is not a temporary one is read after a sweep as before. -/
theorem read_sweep {route : Route} {name : String} {bytes : Bytes} (plain : Disk.Plain name)
    (lasting : Disk.isTemporary name = false) (read : disk.read (route ++ [name]) = .ok bytes)
    (swept : Route) : (disk.perform (sweep disk swept)).read (route ++ [name]) = .ok bytes := by
  obtain ⟨legal, folder, leads, standing⟩ := (Disk.read_child_iff plain).1 read
  refine (Disk.read_child_iff plain).2 ⟨legal, folder, leads.keep (thins_sweep disk swept).folders, ?_⟩
  rw [node?_sweep, if_neg]
  · exact standing
  · intro deleted
    obtain ⟨place, other, same, temporary, _⟩ := mem_sweep deleted
    obtain ⟨_, names⟩ := List.append_inj' (Effect.deleteFile.inj same) rfl
    rw [List.singleton_inj.1 names, temporary] at lasting
    cases lasting

/-- Taking up the index leaves the archive in its directory, and writes the index if it is made anew. -/
theorem recover_reach (archive : Archive) (disk : Disk) :
    (recover archive disk).archive.root = archive.root ∧
      archive.Touches disk deletes keeps (recover archive disk).effects := by
  unfold recover
  split
  · exact ⟨rfl, .nil⟩
  · exact ⟨rfl, touches_rebuild archive disk⟩
  · exact ⟨rfl, touches_rebuild archive disk⟩

/-- Opening makes folders and deletes temporary files before it takes up the index. -/
theorem establish_reach {root : Route} (made : (establish disk root).answer = true) :
    ∃ middle, (∀ path bytes, middle.node? path = some (.file bytes) →
        disk.node? path = some (.file bytes)) ∧
      (∀ bytes, disk.read (root ++ [indexName]) = .ok bytes →
        middle.read (root ++ [indexName]) = .ok bytes) ∧
      (establish disk root).archive = (recover ⟨root, []⟩ middle).archive ∧
      disk.perform (establish disk root).effects =
        middle.perform (recover ⟨root, []⟩ middle).effects := by
  rcases folders : disk.folders (root ++ ["records"]) with ⟨makings, there⟩
  have makes := Disk.makes_folders disk (root ++ ["records"])
  rw [folders] at makes
  cases there with
  | false =>
      simp only [establish, records, folders] at made
      cases made
  | true =>
      simp only [establish, records, folders, if_true]
      simp only [Disk.perform_append]
      generalize disk.perform makings = first at makes
      have outer := thins_sweep first root
      have inner := thins_sweep (first.perform (sweep first root)) (root ++ ["records"])
      refine ⟨_, fun path bytes standing => ?_, fun bytes read => ?_, rfl, rfl⟩
      · exact makes.files path bytes (outer.within path _ (inner.within path _ standing))
      · have plain : Disk.Plain indexName := by decide +kernel
        refine read_sweep plain rfl (read_sweep plain rfl ?_ _) _
        obtain ⟨legal, folder, leads, standing⟩ := (Disk.read_child_iff plain).1 read
        exact (Disk.read_child_iff plain).2
          ⟨legal, folder, leads.keep fun path => makes.within path .folder, makes.within _ _ standing⟩

/-- An archive that cannot be opened has at most made folders. -/
theorem files_of_refused {root : Route} (refused : (establish disk root).answer = false) {path : Path}
    {bytes : Bytes}
    (standing : (disk.perform (establish disk root).effects).node? path = some (.file bytes)) :
    disk.node? path = some (.file bytes) := by
  rcases folders : disk.folders (root ++ ["records"]) with ⟨makings, there⟩
  have makes := Disk.makes_folders disk (root ++ ["records"])
  rw [folders] at makes
  cases there with
  | true =>
      simp only [establish, records, folders] at refused
      cases refused
  | false =>
      simp only [establish, records, folders] at standing
      exact makes.files path bytes standing

end Archive

end TieredCache
