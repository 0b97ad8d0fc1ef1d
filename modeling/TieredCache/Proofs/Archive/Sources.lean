import TieredCache.Proofs.Archive.Foreign
import TieredCache.Proofs.Archive.Healing
import TieredCache.Proofs.Archive.Upkeep

/-!
# Where what is found comes from

Whatever is on the disk and in the index, a look at a key finds after an operation what it found before, or
the record of an entry that the operation has kept, as long as the index leads from the key to the same name.
So no operation brings an older record to light but one that gives a key another name: making the index anew
can list a record that the index did not list.
-/

namespace TieredCache

/-- A file that is found on one of two disks with the same folders is found on the other, if it is there. -/
theorem Disk.SameFolders.read {before after : Disk} {route : Route} {path : Path} {bytes : Bytes}
    (same : SameFolders before after) (located : after.locate route = .ok (.file path bytes))
    (stood : before.node? path = some (.file bytes)) : before.read route = .ok bytes := by
  rcases List.eq_nil_or_concat route with rfl | ⟨folders, name, rfl⟩
  · cases located
  · rw [List.concat_eq_append] at located ⊢
    obtain ⟨plain, folder, there, rfl⟩ := fileAt_child (fileAt_eq_ok_iff.2 ⟨bytes, located⟩)
    obtain ⟨legal, _⟩ := (read_child_iff plain).1 (read_eq_ok_iff.2 ⟨_, located⟩)
    exact (read_child_iff plain).2
      ⟨legal, folder, (folderAt_eq_ok_iff.1 (same.folderAt_iff.1 there)).2, stood⟩

namespace Archive

variable {archive other : Archive} {disk : Disk} {key : String} {entry : Entry}

theorem inspect_eq_sound_iff :
    archive.inspect disk key = .sound entry ↔ ∃ name bytes, archive.index.get? key = some name ∧
      disk.read (archive.place name) = .ok bytes ∧ Entry.readOwn? key bytes = some entry := by
  constructor
  · intro sound
    have finds := archive.finds disk key
    rw [sound] at finds
    cases finds with
    | sound indexed read own => exact ⟨_, _, indexed, read, own⟩
  · rintro ⟨name, bytes, indexed, read, own⟩
    simp only [inspect, indexed, read, own]

theorem key_of_sound (sound : archive.inspect disk key = .sound entry) : entry.key = key := by
  obtain ⟨_, _, _, _, own⟩ := inspect_eq_sound_iff.1 sound
  exact Entry.key_of_readOwn? own

/-- What is found under the same name after an operation was found before, or is read from the record of an
entry that the operation has kept. -/
theorem Touches.sound {deletes : String → Prop} {keeps : String → Entry → Prop} {effects : List Effect}
    (touches : archive.Touches disk deletes keeps effects) (root : other.root = archive.root)
    (name : ∀ name, other.index.get? key = some name → archive.index.get? key = some name)
    (sound : other.inspect (disk.perform effects) key = .sound entry) :
    archive.inspect disk key = .sound entry ∨
      ∃ owner held, keeps owner held ∧ Entry.readOwn? key held.record = some entry := by
  obtain ⟨indexed, bytes, led, read, own⟩ := inspect_eq_sound_iff.1 sound
  have place : other.place indexed = archive.place indexed := by simp only [Archive.place, records, root]
  rw [place] at read
  obtain ⟨path, located⟩ := Disk.read_eq_ok_iff.1 read
  rcases touches.writes (Disk.stands_locate located) with stood | written
  · exact .inl (inspect_eq_sound_iff.2 ⟨indexed, bytes, name indexed led,
      touches.sameFolders.read located stood, own⟩)
  · cases written with
    | index index there place text =>
        -- The file of the index is an object of strings, which a record is not.
        have none := index.legible_write.no_record
        rw [← text] at none
        rw [Entry.readOwn?, none] at own
        cases own
    | record kept there place text =>
        rw [text] at own
        exact .inr ⟨_, _, kept, own⟩

/-- An operation that keeps no entry leaves nothing else to be found under the same name. -/
theorem Touches.stood {deletes : String → Prop} {effects : List Effect}
    (touches : archive.Touches disk deletes (fun _ => nothing) effects) (root : other.root = archive.root)
    (name : ∀ name, other.index.get? key = some name → archive.index.get? key = some name)
    (sound : other.inspect (disk.perform effects) key = .sound entry) :
    archive.inspect disk key = .sound entry := by
  rcases touches.sound root name sound with before | ⟨_, _, never, _⟩
  · exact before
  · exact never.elim

/-! ## Spills -/

/-- A spill is noted as failed if and only if the disk refuses its record. -/
theorem failedSpill_mem_spill_iff :
    .failedSpill ∈ (archive.spill disk key entry).notices ↔
      ∀ effects, disk.replacement archive.records (recordName key) entry.record ≠ .ok effects := by
  cases written : disk.replacement archive.records (recordName key) entry.record with
  | error refusal => simp [spill, written]
  | ok effects =>
      simp only [spill, written, ne_eq, Except.ok.injEq, forall_eq', iff_false]
      unfold save
      split <;> simp

/-- The record of a spill that has not failed is in the place that the index leads to, also if the index has
not been saved. -/
theorem read_spill (kept : .failedSpill ∉ (archive.spill disk key entry).notices) :
    let outcome := archive.spill disk key entry
    outcome.archive.index.get? key = some (recordName key) ∧
      (disk.perform outcome.effects).read (outcome.archive.place (recordName key)) =
        .ok entry.record := by
  have plain := plain_recordName key
  simp only [failedSpill_mem_spill_iff, not_forall, not_not] at kept
  obtain ⟨effects, written⟩ := kept
  obtain ⟨folder, there, legal, free, rfl⟩ := Disk.replacement_eq_ok plain written
  have recorded := Disk.updates_effectsOf disk ⟨folder, recordName key, some entry.record⟩
  have read : (disk.perform (disk.effectsOf ⟨folder, recordName key, some entry.record⟩)).read
      (archive.records ++ [recordName key]) = .ok entry.record :=
    (Disk.read_child_iff plain).2
      ⟨legal, folder, (Disk.folderAt_eq_ok_iff.1 there).2.keep (recorded.keepsFolders free), recorded.here⟩
  simp only [spill, written, place_recordName, Disk.perform_append]
  refine ⟨(Keyed.get?_put _ _ _ _).trans (if_pos rfl), ?_⟩
  rcases save_cases { archive with index := archive.index.put key (recordName key) }
    (disk.perform (disk.effectsOf ⟨folder, recordName key, some entry.record⟩)) .unsavedSpill with
    ⟨home, savable, saved⟩ | refused
  · rw [saved]
    exact (savable.read_record _ _).trans read
  · rw [refused]
    exact read

end Archive

/-- What is found after an operation on an archive was found before it. -/
def Outcome.AddsNothing {α : Type} (outcome : Outcome α) (archive : Archive) (disk : Disk) : Prop :=
  ∀ key entry, outcome.archive.inspect (disk.perform outcome.effects) key = .sound entry →
    archive.inspect disk key = .sound entry

namespace Archive

variable {archive : Archive} {disk : Disk} {key : String} {entry : Entry}

/-- An operation that keeps no entry and names no key anew adds nothing. -/
theorem Touches.addsNothing {deletes : String → Prop} {α : Type} {outcome : Outcome α}
    (touches : archive.Touches disk deletes (fun _ => nothing) outcome.effects)
    (root : outcome.archive.root = archive.root)
    (names : ∀ key name, outcome.archive.index.get? key = some name →
      archive.index.get? key = some name) : outcome.AddsNothing archive disk :=
  fun key _ sound => touches.stood root (names key) sound

/-! ## Operations -/

/-- Acting on a verdict adds nothing. -/
theorem addsNothing_settle (archive : Archive) (disk : Disk) (key : String) (verdict : Verdict) :
    (archive.settle disk key verdict).AddsNothing archive disk := by
  have forgotten (disk : Disk) : (archive.forget disk key).archive = archive.without key := by
    rw [← forgetAmid_calm, archive_forgetAmid]
  have archives : (archive.settle disk key verdict).archive = archive ∨
      (archive.settle disk key verdict).archive = archive.without key := by
    cases verdict with
    | missing => exact .inr (forgotten disk)
    | corrupt name => exact .inr (forgotten _)
    | _ => exact .inl rfl
  refine (touches_settle archive disk key verdict).addsNothing ?_ fun asked name led => ?_
  · rcases archives with same | dropped
    · rw [same]
    · rw [dropped]
      rfl
  · rcases archives with same | dropped
    · rwa [same] at led
    · rw [dropped] at led
      exact Keyed.of_get?_erase led

/-- After a removal nothing is found of the key, and nothing that was not found before. -/
theorem addsNothing_remove (archive : Archive) (disk : Disk) (key : String) :
    (archive.remove disk key).AddsNothing archive disk ∧
      (archive.remove disk key).archive.index.get? key = none := by
  have dropped := archive_remove archive disk key
  refine ⟨(touches_remove archive disk key).addsNothing
    (by rw [dropped]) fun asked name led => ?_, ?_⟩
  · rw [dropped] at led
    exact Keyed.of_get?_erase led
  · rw [dropped, Keyed.get?_erase, if_pos rfl]

/-- After a clearing the index leads nowhere. -/
theorem addsNothing_clear (archive : Archive) (disk : Disk) :
    (archive.clear disk).AddsNothing archive disk :=
  (touches_clear archive disk).addsNothing rfl fun _ _ never => nomatch never

/-- When the index is made anew, nothing is found under the name that a key had before that was not found
before. -/
theorem sound_rebuild
    (named : ∀ name, (archive.rebuild disk).archive.index.get? key = some name →
      archive.index.get? key = some name)
    (sound : (archive.rebuild disk).archive.inspect (disk.perform (archive.rebuild disk).effects) key =
      .sound entry) : archive.inspect disk key = .sound entry := by
  have touches : archive.Touches disk nothing (fun _ => nothing) (archive.rebuild disk).effects :=
    touches_rebuild archive disk
  have root : (archive.rebuild disk).archive.root = archive.root := rfl
  exact touches.stood root named sound

/-- After a spill that has not failed, what is found of its key is the record of its entry, and what is found
of other keys was found before. -/
theorem sound_spill {later : Entry}
    (kept : .failedSpill ∉ (archive.spill disk entry.key entry).notices)
    (sound : (archive.spill disk entry.key entry).archive.inspect
      (disk.perform (archive.spill disk entry.key entry).effects) key = .sound later) :
    if key = entry.key then Entry.readOwn? key entry.record = some later
    else archive.inspect disk key = .sound later := by
  obtain ⟨root, index⟩ := archive.spill_frame disk entry.key entry
  split
  · rename_i same
    subst same
    obtain ⟨leads, record⟩ := read_spill kept
    obtain ⟨name, bytes, led, read, own⟩ := inspect_eq_sound_iff.1 sound
    obtain rfl := Option.some.inj (leads.symm.trans led)
    obtain rfl := Except.ok.inj (record.symm.trans read)
    exact own
  · rename_i differs
    rcases (touches_spill archive disk entry.key entry).sound root
      (fun name led => (index key differs).symm.trans led) sound with before | ⟨_, _, ⟨rfl, rfl⟩, own⟩
    · exact before
    · refine absurd ?_ differs
      rw [← Entry.key_of_readOwn? own]
      exact Entry.key_of_read?_record (Option.filter_eq_some_iff.1 own).1

end Archive

end TieredCache
