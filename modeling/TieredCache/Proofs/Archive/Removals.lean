import TieredCache.Proofs.Archive.Mishaps
import TieredCache.Proofs.Archive.Reopening

/-!
# Removals and clearings of an archive

Whatever is on the disk and whatever goes wrong, a removal takes its key out of the index and a clearing empties
it. On the disk they delete the files that they are about and write the index, and they file nothing. An index
that is not noted as unsaved is what its file holds.
-/

namespace TieredCache

/-! ## What an index names in its file -/

namespace Index

theorem ofMembers?_keys (index held : Index) :
    ∃ reread, ofMembers? (index.map outlineMember) held = some reread ∧
      ∀ key ∈ reread.keys, key ∈ held.keys ∨ key ∈ index.keys := by
  induction index generalizing held with
  | nil => exact ⟨held, rfl, fun key => .inl⟩
  | cons member index induction =>
      obtain ⟨reread, read, listed⟩ := induction (held.put member.1 member.2)
      refine ⟨reread, ?_, fun key among => ?_⟩
      · rw [List.map_cons, outlineMember, ofMembers?, Json.Quoted.text?_pieces, Json.Outline.string?,
          Json.Quoted.text?_pieces]
        exact read
      · rcases listed key among with before | later
        · rw [Keyed.keys_put, List.mem_append, List.mem_filter, List.mem_singleton] at before
          rcases before with ⟨before, _⟩ | rfl
          · exact .inl before
          · exact .inr List.mem_cons_self
        · exact .inr (List.mem_cons_of_mem _ later)

/-- The file of an index can be read, and names no key that the index does not. -/
theorem read?_write_keys (index : Index) :
    ∃ reread, read? index.write = some reread ∧ ∀ key, reread.has key = true → index.has key = true := by
  obtain ⟨reread, read, listed⟩ := ofMembers?_keys index []
  refine ⟨reread, ?_, fun key has => ?_⟩
  · rw [read?, outline_write]
    exact read
  · rw [Keyed.has_iff_mem_keys] at has ⊢
    exact (listed key has).resolve_left List.not_mem_nil

end Index

/-! ## The archive -/

namespace Archive

variable {archive other : Archive} {hazard : Hazard} {disk before middle after : Disk} {path : Path}
  {deletes : String → Prop}

/-! ## What is left at a place -/

/-- What an operation that files nothing leaves at a place. It may delete the files that certain names lead to,
unless they are kept, and write the index, or a part of it under a temporary name. -/
inductive Unfiled (archive : Archive) (hazard : Hazard) (deletes : String → Prop) (before after : Disk)
    (path : Path) : Prop where
  | same (still : after.node? path = before.node? path)
  | gone {name : String} (deleted : deletes name) (free : name ∉ hazard.kept)
      (there : before.fileAt (archive.place name) = .ok path) (cleared : after.node? path = none)
  | index {folder : Path} (index : Index) (there : before.folderAt archive.root = .ok folder)
      (place : path = folder ++ [indexName]) (written : after.node? path = some (.file index.write))
  | torn {folder : Path} {name : String} (mishap : hazard.index ≠ none)
      (there : before.folderAt archive.root = .ok folder) (place : path = folder ++ [name])
      (temporary : Disk.isTemporary name = true)

/-- Files are deleted, and then an operation goes on. -/
theorem Unfiled.andThen (first : archive.Unfiled hazard deletes before middle path)
    (thins : Disk.Thins before middle) (second : other.Unfiled hazard deletes middle after path)
    (root : other.root = archive.root) :
    archive.Unfiled hazard deletes before after path := by
  cases second with
  | same still =>
      cases first with
      | same still_first => exact .same (still.trans still_first)
      | gone deleted free there cleared => exact .gone deleted free there (still.trans cleared)
      | index index there place written => exact .index index there place (still.trans written)
      | torn mishap there place temporary => exact .torn mishap there place temporary
  | gone deleted free there cleared =>
      rw [place, records, root] at there
      exact .gone deleted free (thins.within.fileAt there) cleared
  | index index there place written =>
      rw [root, thins.sameFolders.folderAt_iff] at there
      exact .index index there place written
  | torn mishap there place temporary =>
      rw [root, thins.sameFolders.folderAt_iff] at there
      exact .torn mishap there place temporary

/-- A file that can be deleted amid a hazard is not one that is kept. -/
theorem deletionAmid_eq_ok {name : String} {effect : Effect}
    (deletes : archive.deletionAmid hazard disk name = .ok effect) :
    name ∉ hazard.kept ∧ disk.deletion (archive.place name) = .ok effect := by
  unfold deletionAmid at deletes
  split at deletes
  · cases deletes
  · exact ⟨‹_›, deletes⟩

/-- Deleting the file of a name thins the disk, and touches nothing else. -/
theorem unfiled_deletion {name : String} {effect : Effect} (deleted : deletes name)
    (deletion : archive.deletionAmid hazard disk name = .ok effect) :
    Disk.Thins disk (disk.apply effect) ∧
      ∀ path, archive.Unfiled hazard deletes disk (disk.apply effect) path := by
  obtain ⟨free, deletion⟩ := deletionAmid_eq_ok deletion
  obtain ⟨stroke, same, gone, there⟩ := Disk.deletion_eq_ok deletion
  obtain ⟨bytes, standing⟩ := Disk.file_of_fileAt there
  have updates := Disk.updates_effectsOf disk stroke
  have thins := Disk.thins_effectsOf gone (by rw [standing]; simp)
  rw [← same, Disk.perform_cons, Disk.perform_nil] at updates thins
  refine ⟨thins, fun path => ?_⟩
  by_cases here : path = stroke.path
  · rw [here]
    exact .gone deleted free there (updates.here.trans (by rw [Stroke.node?, gone]; rfl))
  · exact .same (updates.elsewhere here)

theorem unfiled_deleteAllAmid (hazard : Hazard) (archive : Archive) (disk : Disk) (names : List String) :
    let after := disk.perform (archive.deleteAllAmid hazard disk names).1
    Disk.Thins disk after ∧ ∀ path, archive.Unfiled hazard (· ∈ names) disk after path := by
  -- The names that may be deleted stay the same while the list is worked off.
  suffices general : ∀ rest : List String, (∀ name ∈ rest, name ∈ names) →
      let after := disk.perform (archive.deleteAllAmid hazard disk rest).1
      Disk.Thins disk after ∧ ∀ path, archive.Unfiled hazard (· ∈ names) disk after path from
    general names fun _ => id
  intro rest listed
  induction rest generalizing disk with
  | nil => exact ⟨.refl disk, fun _ => .same rfl⟩
  | cons name rest induction =>
      obtain ⟨listed_here, listed_later⟩ := List.forall_mem_cons.1 listed
      simp only [deleteAllAmid]
      cases deletion : archive.deletionAmid hazard disk name with
      | ok effect =>
          obtain ⟨thins, here⟩ := @unfiled_deletion _ _ _ (· ∈ names) _ _ listed_here deletion
          obtain ⟨thins_later, later⟩ := induction (disk.apply effect) listed_later
          exact ⟨thins.trans thins_later, fun path => (here path).andThen thins (later path) rfl⟩
      | error refusal => cases refusal <;> exact induction disk listed_later

/-! ## Saving an index amid a mishap -/

/-- An index is saved, or the failure is noted, and then at most a part of it comes to a temporary file. -/
theorem saveAmid_cases (mishap : Option Mishap) (archive : Archive) (disk : Disk) (failure : Notice) :
    (∃ home, archive.Savable disk home ∧
      archive.saveAmid mishap disk failure = (disk.effectsOf (saving home archive.index), [])) ∨
    (archive.saveAmid mishap disk failure).2 = [failure] ∧
      ((archive.saveAmid mishap disk failure).1 = [] ∨
        ∃ folder node, mishap ≠ none ∧ disk.folderAt archive.root = .ok folder ∧
          Disk.Updates disk (disk.scratch folder) node
            (disk.perform (archive.saveAmid mishap disk failure).1)) := by
  cases mishap with
  | none =>
      rw [saveAmid_none]
      rcases archive.save_cases disk failure with ⟨home, savable, saved⟩ | refused
      · exact .inl ⟨home, savable, saved⟩
      · rw [refused]
        exact .inr ⟨rfl, .inl rfl⟩
  | some mishap =>
      right
      have failed : (disk.attempt (some mishap) archive.root indexName archive.index.write).2 = false := by
        rw [Disk.attempt]
        split <;> rfl
      have left := Disk.attempt_failed failed
      rcases attempted : disk.attempt (some mishap) archive.root indexName archive.index.write with
        ⟨effects, replaced⟩
      rw [attempted] at failed left
      cases failed
      simp only [saveAmid, attempted]
      rcases left with nothing | ⟨folder, node, among, there, _, updates⟩
      · exact ⟨trivial, .inl nothing⟩
      · exact ⟨trivial, .inr ⟨folder, node, among, there, updates⟩⟩

theorem unfiled_saveAmid (hazard : Hazard) (archive : Archive) (disk : Disk) (failure : Notice)
    (deletes : String → Prop) (path : Path) :
    archive.Unfiled hazard deletes disk
      (disk.perform (archive.saveAmid hazard.index disk failure).1) path := by
  rcases archive.saveAmid_cases hazard.index disk failure with
    ⟨home, savable, saved⟩ | ⟨_, nothing | ⟨folder, node, mishap, there, updates⟩⟩
  · have updates := Disk.updates_effectsOf disk (saving home archive.index)
    rw [saved]
    by_cases here : path = indexAt home
    · have there := Disk.folderAt_eq_ok_iff.2 ⟨Disk.isLegal_of_append savable.legal, savable.leads⟩
      rw [here]
      exact .index archive.index there rfl updates.here
    · exact .same (updates.elsewhere here)
  · rw [nothing]
    exact .same rfl
  · by_cases here : path = disk.scratch folder
    · exact .torn mishap there here (Disk.isTemporary_temporaryName _)
    · exact .same (updates.elsewhere here)

/-- An index that was saved without a failure is what its file holds. -/
theorem read_of_savedAmid {mishap : Option Mishap} {failure : Notice}
    (saved : failure ∉ (archive.saveAmid mishap disk failure).2) :
    (disk.perform (archive.saveAmid mishap disk failure).1).read archive.indexFile =
      .ok archive.index.write := by
  rcases archive.saveAmid_cases mishap disk failure with ⟨home, savable, saves⟩ | ⟨refused, _⟩
  · have after := savable.saved archive.index
    have written := (Disk.updates_effectsOf disk (saving home archive.index)).here
    rw [saves, indexFile, Disk.read_child after.legal after.leads plain_indexName]
    rw [show home ++ [indexName] = (saving home archive.index).path from rfl, written]
    rfl
  · rw [refused] at saved
    exact absurd List.mem_cons_self saved

/-- Where an index can be saved, and there is no mishap, no failure is noted. -/
theorem Savable.saveAmid_quiet {home : Path} (savable : archive.Savable disk home) (failure : Notice) :
    (archive.saveAmid none disk failure).2 = [] := by
  rw [saveAmid_none, savable.save_eq]

/-- What deletes files leaves a place to save the index in. -/
theorem Savable.thins {home : Path} (savable : archive.Savable before home)
    (thins : Disk.Thins before after) : archive.Savable after home where
  leads := savable.leads.keep thins.folders
  legal := savable.legal
  free folder := savable.free (thins.within _ _ folder)

/-! ## Operations -/

/-- An archive that is opened where the file of an index stands lists no key that the index does not. -/
theorem contains_establish {later : Disk} {root : Route} {index : Index} {key : String}
    (read : later.read (root ++ [indexName]) = .ok index.write) (made : (establish later root).answer = true)
    (listed : (establish later root).archive.contains key = true) : index.has key = true := by
  obtain ⟨middle, _, carried, archive, _⟩ := establish_reach made
  obtain ⟨reread, sound, keys⟩ := Index.read?_write_keys index
  have taken := @recover_of_sound ⟨root, []⟩ middle _ _ (carried _ read) sound
  rw [archive, taken] at listed
  exact keys key listed

/-- A removal takes its key out of the index, and does nothing else to it. -/
theorem archive_removeAmid (hazard : Hazard) (archive : Archive) (disk : Disk) (key : String) :
    (archive.removeAmid hazard disk key).archive = { archive with index := archive.index.erase key } := by
  unfold removeAmid
  dsimp only
  split
  · rfl
  · rename_i absent
    have none : archive.index.get? key = none := by simpa using absent
    rw [Keyed.erase_of_not_mem (Keyed.get?_eq_none_iff.1 none)]

/-- The name under which a removal looks for the record of its key. -/
def recordOf (archive : Archive) (key : String) : String :=
  (archive.index.get? key).getD (recordName key)

/-- What a removal does about the file of a record, and what it notes. -/
def recordDeletion (hazard : Hazard) (archive : Archive) (disk : Disk) (key : String) :
    List Effect × List Notice :=
  match archive.deletionAmid hazard disk (archive.recordOf key) with
  | .ok effect => ([effect], [])
  | .error .missing => ([], [])
  | .error .obstacle => ([], [.undeletedRecord])

theorem removeAmid_of_contains (hazard : Hazard) (archive : Archive) (disk : Disk) {key : String}
    (indexed : archive.contains key = true) :
    let erased : Archive := { archive with index := archive.index.erase key }
    let deletion := archive.recordDeletion hazard disk key
    let saving := erased.saveAmid hazard.index (disk.perform deletion.1) .unsavedRemoval
    archive.removeAmid hazard disk key =
      ⟨true, erased, deletion.1 ++ saving.1, deletion.2 ++ saving.2⟩ := by
  have present : (archive.index.get? key).isSome = true := indexed
  rw [removeAmid]
  simp only [present, if_true]
  rfl

theorem removeAmid_of_not_contains (hazard : Hazard) (archive : Archive) (disk : Disk) {key : String}
    (absent : archive.contains key = false) :
    let deletion := archive.recordDeletion hazard disk key
    archive.removeAmid hazard disk key = ⟨!deletion.1.isEmpty, archive, deletion.1, deletion.2⟩ := by
  have none : (archive.index.get? key).isSome = false := absent
  rw [removeAmid]
  simp only [none, Bool.false_eq_true, if_false]
  rfl

/-- A removal deletes the file of the record, or leaves the disk as it is. -/
theorem recordDeletion_cases (hazard : Hazard) (archive : Archive) (disk : Disk) (key : String) :
    (archive.recordDeletion hazard disk key).1 = [] ∨
      ∃ effect, archive.deletionAmid hazard disk (archive.recordOf key) = .ok effect ∧
        (archive.recordDeletion hazard disk key).1 = [effect] := by
  unfold recordDeletion
  split
  · exact .inr ⟨_, ‹_›, rfl⟩
  · exact .inl rfl
  · exact .inl rfl

theorem unfiled_recordDeletion (hazard : Hazard) (archive : Archive) (disk : Disk) (key : String) :
    let after := disk.perform (archive.recordDeletion hazard disk key).1
    Disk.Thins disk after ∧
      ∀ path, archive.Unfiled hazard (· = archive.recordOf key) disk after path := by
  dsimp only
  rcases archive.recordDeletion_cases hazard disk key with nothing | ⟨effect, deletion, deletes⟩
  · rw [nothing]
    exact ⟨.refl disk, fun _ => .same rfl⟩
  · rw [deletes]
    exact unfiled_deletion rfl deletion

theorem unfiled_removeAmid (hazard : Hazard) (archive : Archive) (disk : Disk) (key : String) (path : Path) :
    archive.Unfiled hazard (· = archive.recordOf key) disk
      (disk.perform (archive.removeAmid hazard disk key).effects) path := by
  obtain ⟨thins, deleted⟩ := archive.unfiled_recordDeletion hazard disk key
  cases indexed : archive.contains key with
  | true =>
      rw [archive.removeAmid_of_contains hazard disk indexed, Disk.perform_append]
      exact (deleted path).andThen thins (unfiled_saveAmid hazard _ _ _ _ path) rfl
  | false =>
      rw [archive.removeAmid_of_not_contains hazard disk indexed]
      exact deleted path

/-- What a removal notes of the index: it is written, unless that is noted, and it can be written where there
is no mishap. -/
theorem saved_removeAmid (hazard : Hazard) (archive : Archive) (disk : Disk) {key : String}
    (indexed : archive.contains key = true) :
    let outcome := archive.removeAmid hazard disk key
    (.unsavedRemoval ∉ outcome.notices →
      (disk.perform outcome.effects).read archive.indexFile = .ok (Index.write (archive.index.erase key))) ∧
    (hazard.index = none → (∃ home, archive.Savable disk home) → .unsavedRemoval ∉ outcome.notices) := by
  intro outcome
  obtain ⟨thins, _⟩ := archive.unfiled_recordDeletion hazard disk key
  have removed : outcome = _ := archive.removeAmid_of_contains hazard disk indexed
  rw [removed, Disk.perform_append]
  constructor
  · intro saved
    exact @read_of_savedAmid { archive with index := archive.index.erase key } _ _ _ fun noted =>
      saved (List.mem_append_right _ noted)
  · rintro calm ⟨home, savable⟩ noted
    have quiet := ((savable.thins thins).withIndex (archive.index.erase key)).saveAmid_quiet .unsavedRemoval
    rw [← calm] at quiet
    rw [quiet, List.append_nil] at noted
    unfold recordDeletion at noted
    split at noted <;> simp at noted

/-- What a removal answers: the key was indexed, or its record was there and is deleted. -/
theorem answer_removeAmid (hazard : Hazard) (archive : Archive) (disk : Disk) (key : String) :
    (archive.removeAmid hazard disk key).answer = true ↔
      archive.contains key = true ∨ archive.contains key = false ∧
        ∃ path bytes, disk.locate (archive.place (recordName key)) = .ok (.file path bytes) ∧
          (disk.perform (archive.removeAmid hazard disk key).effects).node? path = none := by
  cases indexed : archive.contains key with
  | true =>
      rw [archive.removeAmid_of_contains hazard disk indexed]
      exact iff_of_true rfl (.inl rfl)
  | false =>
      have own : archive.recordOf key = recordName key := by
        rw [recordOf, Keyed.has_eq_false_iff.1 indexed, Option.getD_none]
      rw [archive.removeAmid_of_not_contains hazard disk indexed]
      rcases archive.recordDeletion_cases hazard disk key with nothing | ⟨effect, deletion, deletes⟩
      · simp only [nothing, List.isEmpty_nil, Bool.not_true, Bool.false_eq_true, true_and, false_or, false_iff]
        rintro ⟨path, bytes, located, cleared⟩
        have standing : disk.node? path = some (.file bytes) := Disk.stands_locate located
        rw [Disk.perform_nil, standing] at cleared
        cases cleared
      · obtain ⟨_, deletion⟩ := deletionAmid_eq_ok deletion
        obtain ⟨stroke, same, gone, there⟩ := Disk.deletion_eq_ok deletion
        obtain ⟨bytes, located⟩ := Disk.fileAt_eq_ok_iff.1 there
        rw [own] at located
        rw [deletes]
        refine iff_of_true rfl (.inr ⟨rfl, _, bytes, located, ?_⟩)
        rw [same, (Disk.updates_effectsOf disk stroke).here, Stroke.node?, gone]
        rfl

theorem unfiled_clearAmid (hazard : Hazard) (archive : Archive) (disk : Disk) (path : Path) :
    archive.Unfiled hazard (· ∈ archive.index.map Prod.snd) disk
      (disk.perform (archive.clearAmid hazard disk).effects) path := by
  obtain ⟨thins, deleted⟩ := unfiled_deleteAllAmid hazard archive disk (archive.index.map Prod.snd)
  rw [clearAmid, Disk.perform_append]
  exact (deleted path).andThen thins (unfiled_saveAmid hazard _ _ _ _ path) rfl

theorem notices_deleteAllAmid (hazard : Hazard) (archive : Archive) (disk : Disk) (names : List String) :
    ∀ notice ∈ (archive.deleteAllAmid hazard disk names).2, notice = .undeletedRecord := by
  induction names generalizing disk with
  | nil => exact List.forall_mem_nil _
  | cons name names induction =>
      simp only [deleteAllAmid]
      split
      · exact induction _
      · exact induction disk
      · exact List.forall_mem_cons.2 ⟨rfl, induction disk⟩

/-- What a clearing notes of the index: it is written, unless that is noted, and it can be written where there
is no mishap. -/
theorem saved_clearAmid (hazard : Hazard) (archive : Archive) (disk : Disk) :
    let outcome := archive.clearAmid hazard disk
    (.unsavedClear ∉ outcome.notices →
      (disk.perform outcome.effects).read archive.indexFile = .ok (Index.write [])) ∧
    (hazard.index = none → (∃ home, archive.Savable disk home) → .unsavedClear ∉ outcome.notices) := by
  obtain ⟨thins, _⟩ := unfiled_deleteAllAmid hazard archive disk (archive.index.map Prod.snd)
  simp only [clearAmid, Disk.perform_append]
  constructor
  · intro saved
    exact @read_of_savedAmid { archive with index := [] } _ _ _ fun noted =>
      saved (List.mem_append_right _ noted)
  · rintro calm ⟨home, savable⟩ noted
    have quiet := ((savable.thins thins).withIndex []).saveAmid_quiet .unsavedClear
    rw [calm, quiet, List.append_nil] at noted
    cases notices_deleteAllAmid hazard archive disk _ _ noted

end Archive

end TieredCache
