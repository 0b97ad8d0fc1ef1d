import TieredCache.Proofs.Archive.Mishaps
import TieredCache.Proofs.Archive.Repair

/-!
# Healing by loading

A load repairs what it has found broken and nothing else: a key without a record is taken out of the index,
and a file that holds no record of its key is deleted as well, if it can be. What other keys lead to stays as it
is, so loading every key once leaves an index in which every key can be loaded, whatever could not be deleted.
-/

namespace TieredCache

/-- An entry that is read from a record has no artifacts and does not count as hydrated. -/
theorem Entry.bare_of_read? {bytes : Bytes} {entry : Entry} (read : Entry.read? bytes = some entry) :
    entry.artifacts = [] ∧ entry.hydrated = false := by
  obtain ⟨outline, _, decoded⟩ := Option.bind_eq_some_iff.1 read
  unfold Entry.ofOutline? at decoded
  split at decoded
  · simp only [bind, Option.bind_eq_some_iff, pure, Option.some.injEq] at decoded
    obtain ⟨_, _, _, _, _, _, _, _, _, _, _, _, _, _, rfl⟩ := decoded
    exact ⟨rfl, rfl⟩
  · cases decoded

namespace Archive

variable {archive : Archive} {disk middle : Disk} {home : Path} {key asked name : String} {verdict : Verdict}
  {kept : List String}

/-! ## What a look finds -/

/-- What a verdict says of the index and the disk. -/
inductive Finds (archive : Archive) (disk : Disk) (key : String) : Verdict → Prop where
  | absent (nowhere : archive.index.get? key = none) : Finds archive disk key .absent
  | sound {name : String} {bytes : Bytes} {entry : Entry} (indexed : archive.index.get? key = some name)
      (read : disk.read (archive.place name) = .ok bytes) (own : Entry.readOwn? key bytes = some entry) :
      Finds archive disk key (.sound entry)
  | missing {name : String} (indexed : archive.index.get? key = some name)
      (gone : disk.read (archive.place name) = .error .missing) : Finds archive disk key .missing
  | unread {name : String} (indexed : archive.index.get? key = some name)
      (refused : disk.read (archive.place name) = .error .obstacle) : Finds archive disk key .unread
  | corrupt {name : String} {bytes : Bytes} (indexed : archive.index.get? key = some name)
      (read : disk.read (archive.place name) = .ok bytes) (foreign : Entry.readOwn? key bytes = none) :
      Finds archive disk key (.corrupt name)

theorem finds (archive : Archive) (disk : Disk) (key : String) :
    Finds archive disk key (archive.inspect disk key) := by
  unfold inspect
  split
  · exact .absent ‹_›
  · split
    · exact .missing ‹_› ‹_›
    · exact .unread ‹_› ‹_›
    · split
      · exact .sound ‹_› ‹_› ‹_›
      · exact .corrupt ‹_› ‹_› ‹_›

/-- A verdict depends on the name that the key leads to and on what is read under it. -/
theorem inspect_congr {other : Archive} (root : other.root = archive.root)
    (index : other.index.get? key = archive.index.get? key)
    (read : ∀ name, archive.index.get? key = some name →
      middle.read (archive.place name) = disk.read (archive.place name)) :
    other.inspect middle key = archive.inspect disk key := by
  rw [inspect, inspect, index]
  cases indexed : archive.index.get? key with
  | none => rfl
  | some name =>
      have place : other.place name = archive.place name := by
        rw [Archive.place, Archive.place, records, records, root]
      simp only [place, read name indexed]

/-! ## What a load repairs -/

/-- An archive without a key in its index. -/
def without (archive : Archive) (key : String) : Archive :=
  { archive with index := archive.index.erase key }

/-- What a load of a key comes to: the entry of its record, nothing, or a repair. The files of the names that
are kept cannot be deleted. -/
inductive Heals (archive : Archive) (disk : Disk) (home : Path) (kept : List String) (key : String)
    (outcome : Outcome (Option Entry)) : Prop where
  | sound {entry : Entry} (answer : outcome.answer = some entry) (own : entry.key = key)
      (bare : entry.artifacts = []) (cold : entry.hydrated = false) (same : outcome.archive = archive)
      (idle : outcome.effects = [])
  | absent (answer : outcome.answer = none) (nowhere : archive.index.get? key = none)
      (same : outcome.archive = archive) (idle : outcome.effects = [])
  | unread {name : String} (answer : outcome.answer = none) (indexed : archive.index.get? key = some name)
      (refused : disk.read (archive.place name) = .error .obstacle) (same : outcome.archive = archive)
      (idle : outcome.effects = [])
  | missing {name : String} (answer : outcome.answer = none) (indexed : archive.index.get? key = some name)
      (gone : disk.read (archive.place name) = .error .missing)
      (dropped : outcome.archive = archive.without key)
      (saved : outcome.archive.OnFile (disk.perform outcome.effects))
      (elsewhere : ∀ path, path ≠ indexAt home →
        (disk.perform outcome.effects).node? path = disk.node? path)
  | corrupt {name : String} {bytes : Bytes} {file : Path} (answer : outcome.answer = none)
      (indexed : archive.index.get? key = some name)
      (read : disk.read (archive.place name) = .ok bytes)
      (foreign : ∀ entry, Entry.read? bytes = some entry → entry.key ≠ key)
      (located : disk.fileAt (archive.place name) = .ok file)
      (dropped : outcome.archive = archive.without key)
      (saved : outcome.archive.OnFile (disk.perform outcome.effects))
      (deleted : (disk.perform outcome.effects).node? file =
        if name ∈ kept then some (.file bytes) else none)
      (elsewhere : ∀ path, path ≠ indexAt home → path ≠ file →
        (disk.perform outcome.effects).node? path = disk.node? path)

/-- An archive that a load can repair: its index can be saved and names files of the folder of records. -/
structure Mendable (archive : Archive) (disk : Disk) (home : Path) : Prop
    extends Savable archive disk home where
  distinct : archive.index.keys.Nodup
  plain : ∀ key name, archive.index.get? key = some name → NoSlash name

theorem Mendable.place_eq (mendable : archive.Mendable disk home)
    (indexed : archive.index.get? key = some name) : archive.place name = archive.records ++ [name] :=
  join_of_no_slash _ (mendable.plain key name indexed)

theorem forgetAmid_of_indexed (savable : archive.Savable disk home)
    (indexed : archive.index.get? key = some name) :
    archive.forgetAmid { kept } disk key =
      ⟨(), archive.without key, disk.effectsOf (saving home (archive.without key).index), []⟩ := by
  have present : archive.contains key = true := by simp [Archive.contains, Keyed.has, indexed]
  rw [forgetAmid, if_pos present]
  simp only [saveAmid_none, (savable.withIndex (archive.index.erase key)).save_eq]
  rfl

/-- A file that is read under an indexed name lies in the folder of the records. -/
theorem Mendable.located (mendable : archive.Mendable disk home)
    (indexed : archive.index.get? key = some name) {bytes : Bytes}
    (read : disk.read (archive.place name) = .ok bytes) :
    disk.fileAt (archive.place name) = .ok (recordsAt home ++ [name]) ∧
      disk.node? (recordsAt home ++ [name]) = some (.file bytes) ∧ Disk.Plain name ∧
      disk.node? (recordsAt home) = some .folder := by
  obtain ⟨path, located⟩ := Disk.read_eq_ok_iff.1 read
  have found := Disk.fileAt_eq_ok_iff.2 ⟨bytes, located⟩
  have standing := Disk.stands_locate located
  rw [mendable.place_eq indexed] at found ⊢
  obtain ⟨plain, folder, there, rfl⟩ := Disk.fileAt_child found
  obtain ⟨rfl, inside⟩ :=
    (leads_records_iff mendable.leads).1 (Disk.folderAt_eq_ok_iff.1 there).2
  exact ⟨found, standing, plain, inside⟩

/-- The file of an indexed name is deleted, unless it is kept. -/
theorem Mendable.updates_purge (mendable : archive.Mendable disk home)
    (indexed : archive.index.get? key = some name) {bytes : Bytes}
    (read : disk.read (archive.place name) = .ok bytes) :
    Disk.Updates disk (recordsAt home ++ [name]) (if name ∈ kept then some (.file bytes) else none)
      (disk.perform (archive.purgeAmid { kept } disk name)) := by
  obtain ⟨located, standing, _, _⟩ := mendable.located indexed read
  by_cases among : name ∈ kept
  · simp only [purgeAmid, deletionAmid, if_pos among]
    intro path
    split
    · rename_i here
      rw [here, Disk.perform_nil, standing]
    · rfl
  · simp only [purgeAmid, deletionAmid, if_neg among, Disk.deletion, located]
    exact Disk.updates_deleteFile disk (by simp)

theorem Mendable.heals (mendable : archive.Mendable disk home) (kept : List String) (key : String) :
    Heals archive disk home kept key (archive.loadAmid { kept } disk key) := by
  have found := archive.finds disk key
  unfold loadAmid
  generalize archive.inspect disk key = verdict at found
  have distinct : (archive.without key).index.keys.Nodup := Keyed.nodup_erase mendable.distinct key
  cases found with
  | absent nowhere => exact .absent rfl nowhere rfl rfl
  | @sound name bytes entry indexed read own =>
      obtain ⟨bare, cold⟩ := Entry.bare_of_read? (Option.filter_eq_some_iff.1 own).1
      exact .sound rfl (Entry.key_of_readOwn? own) bare cold rfl rfl
  | unread indexed refused => exact .unread rfl indexed refused rfl rfl
  | @missing name indexed gone =>
      have forgotten := @forgetAmid_of_indexed _ _ _ _ _ kept mendable.toSavable indexed
      have updates := Disk.updates_effectsOf disk (saving home (archive.without key).index)
      simp only [settleAmid, forgotten]
      refine .missing rfl indexed gone rfl ?_ fun path apart => updates.elsewhere apart
      exact ((mendable.saved _).withIndex _).onFile distinct updates.here
  | @corrupt name bytes indexed read foreign =>
      obtain ⟨located, standing, _, _⟩ := mendable.located indexed read
      have deletion := @Mendable.updates_purge _ _ _ _ _ kept mendable indexed _ read
      simp only [settleAmid]
      generalize archive.purgeAmid { kept } disk name = deleting at deletion ⊢
      have savable := mendable.toSavable.update deletion (by rw [standing]; simp) (by split <;> simp)
      have forgotten := @forgetAmid_of_indexed _ _ _ _ _ kept savable indexed
      have updates := Disk.updates_effectsOf (disk.perform deleting) (saving home (archive.without key).index)
      simp only [forgotten]
      refine .corrupt rfl indexed read ?_ located rfl ?_ ?_ fun path not_index not_file => ?_
      · intro entry decoded own
        have filtered := Option.filter_eq_none_iff.1 foreign entry decoded
        exact filtered (by simpa using own)
      · simp only [Disk.perform_append]
        exact ((savable.saved _).withIndex _).onFile distinct updates.here
      · simp only [Disk.perform_append]
        exact (updates.elsewhere (child_ne_indexAt home name)).trans deletion.here
      · simp only [Disk.perform_append]
        exact (updates.elsewhere not_index).trans (deletion.elsewhere not_file)

/-! ## What a load leaves -/

theorem archive_forgetAmid (hazard : Hazard) (archive : Archive) (disk : Disk) (key : String) :
    (archive.forgetAmid hazard disk key).archive = archive.without key := by
  unfold forgetAmid
  split
  · rfl
  · rename_i absent
    have not_key : key ∉ archive.index.keys := by
      rw [← Keyed.has_iff_mem_keys]
      exact absent
    rw [without, Keyed.erase_of_not_mem not_key]

theorem archive_loadAmid (hazard : Hazard) (archive : Archive) (disk : Disk) (key : String) :
    (archive.loadAmid hazard disk key).archive =
      if (archive.inspect disk key).purges then archive.without key else archive := by
  unfold loadAmid
  cases archive.inspect disk key with
  | absent => rfl
  | sound entry => rfl
  | unread => rfl
  | missing => exact archive_forgetAmid hazard archive disk key
  | corrupt name => exact archive_forgetAmid hazard archive _ key

theorem get?_loadAmid (hazard : Hazard) (archive : Archive) (disk : Disk) (key asked : String) :
    (archive.loadAmid hazard disk key).archive.index.get? asked =
      if (archive.inspect disk key).purges ∧ asked = key then none else archive.index.get? asked := by
  rw [archive_loadAmid]
  cases (archive.inspect disk key).purges with
  | false => simp
  | true => simpa [without] using Keyed.get?_erase archive.index key asked

theorem answer_loadAmid (hazard : Hazard) (archive : Archive) (disk : Disk) (key : String) :
    (archive.loadAmid hazard disk key).answer = (archive.inspect disk key).found? := by
  unfold loadAmid
  cases archive.inspect disk key <;> rfl

/-- Nothing that was found in order is changed. -/
theorem loadAmid_of_not_purges {hazard : Hazard} (intact : (archive.inspect disk key).purges = false) :
    (archive.loadAmid hazard disk key).archive = archive ∧
      (archive.loadAmid hazard disk key).effects = [] := by
  unfold loadAmid
  cases found : archive.inspect disk key with
  | absent => exact ⟨rfl, rfl⟩
  | sound entry => exact ⟨rfl, rfl⟩
  | unread => exact ⟨rfl, rfl⟩
  | missing => rw [found] at intact; cases intact
  | corrupt name => rw [found] at intact; cases intact

theorem Mendable.keepsFolders_load (mendable : archive.Mendable disk home) (kept : List String)
    (key : String) :
    Disk.KeepsFolders disk (disk.perform (archive.loadAmid { kept } disk key).effects) := by
  intro path standing
  have not_index : path ≠ indexAt home := by
    rintro rfl
    exact mendable.free standing
  cases mendable.heals kept key with
  | sound _ _ _ _ _ idle => rw [idle]; exact standing
  | absent _ _ _ idle => rw [idle]; exact standing
  | unread _ _ _ _ idle => rw [idle]; exact standing
  | missing _ _ _ _ _ elsewhere => rw [elsewhere path not_index, standing]
  | corrupt _ _ _ _ located _ _ _ elsewhere =>
      rw [elsewhere path not_index, standing]
      rintro rfl
      obtain ⟨bytes, file⟩ := Disk.file_of_fileAt located
      rw [standing] at file
      cases file

theorem root_loadAmid (hazard : Hazard) (archive : Archive) (disk : Disk) (key : String) :
    (archive.loadAmid hazard disk key).archive.root = archive.root := by
  rw [archive_loadAmid]
  split <;> rfl

/-- An archive can be repaired after each load. -/
theorem Mendable.load (mendable : archive.Mendable disk home) (kept : List String) (key : String) :
    let outcome := archive.loadAmid { kept } disk key
    outcome.archive.Mendable (disk.perform outcome.effects) home := by
  intro outcome
  have leads : Disk.Leads (disk.perform outcome.effects) [] archive.root home :=
    mendable.leads.keep (mendable.keepsFolders_load kept key)
  have free : (disk.perform outcome.effects).node? (indexAt home) ≠ some .folder := by
    have of_saved {after : Archive} (saved : after.OnFile (disk.perform outcome.effects))
        (root : after.root = archive.root) :
        (disk.perform outcome.effects).node? (indexAt home) ≠ some .folder := by
      obtain ⟨bytes, standing⟩ := saved.node? (by rw [root]; exact leads)
      rw [standing]
      simp
    have healed : Heals archive disk home kept key outcome := mendable.heals kept key
    cases healed with
    | sound _ _ _ _ _ idle => rw [idle]; exact mendable.free
    | absent _ _ _ idle => rw [idle]; exact mendable.free
    | unread _ _ _ _ idle => rw [idle]; exact mendable.free
    | missing _ _ _ _ saved => exact of_saved saved (root_loadAmid _ archive disk key)
    | corrupt _ _ _ _ _ _ saved => exact of_saved saved (root_loadAmid _ archive disk key)
  have root : outcome.archive.root = archive.root := root_loadAmid _ archive disk key
  refine ⟨⟨?_, ?_, free⟩, ?_, fun asked name indexed => ?_⟩
  · rw [root]
    exact leads
  · rw [indexFile, root]
    exact mendable.legal
  · rw [show outcome.archive = _ from archive_loadAmid _ archive disk key]
    split
    · exact Keyed.nodup_erase mendable.distinct key
    · exact mendable.distinct
  · rw [show outcome.archive.index.get? asked = _ from get?_loadAmid _ archive disk key asked] at indexed
    split at indexed
    · cases indexed
    · exact mendable.plain asked name indexed

/-- A load leaves alone what is read under a name, unless that is the corrupt record of its key. -/
theorem Mendable.read_load (mendable : archive.Mendable disk home) (kept : List String) (key : String)
    {name : String}
    (intact : ∀ bytes, archive.index.get? key = some name → disk.read (archive.place name) ≠ .ok bytes) :
    (disk.perform (archive.loadAmid { kept } disk key).effects).read (archive.records ++ [name]) =
      disk.read (archive.records ++ [name]) := by
  have leads := mendable.leads.keep (mendable.keepsFolders_load kept key)
  cases mendable.heals kept key with
  | sound _ _ _ _ _ idle => rw [idle]; rfl
  | absent _ _ _ idle => rw [idle]; rfl
  | unread _ _ _ _ idle => rw [idle]; rfl
  | missing _ _ _ _ _ elsewhere =>
      exact read_record_congr leads mendable.leads (elsewhere _ (indexAt_ne_recordsAt home).symm)
        (elsewhere _ (child_ne_indexAt home name))
  | @corrupt other bytes file _ indexed read _ located _ _ _ elsewhere =>
      obtain ⟨found, _⟩ := mendable.located indexed read
      obtain rfl := Except.ok.inj (located.symm.trans found)
      refine read_record_congr leads mendable.leads
        (elsewhere _ (indexAt_ne_recordsAt home).symm (by simp)) (elsewhere _ (child_ne_indexAt home name) ?_)
      intro same
      obtain rfl : name = other := by simpa using same
      exact intact bytes indexed read

/-! ## Loading every key -/

/-- No two keys lead to one file. -/
def Unshared (archive : Archive) (disk : Disk) : Prop :=
  ∀ left right name bytes, archive.index.get? left = some name → archive.index.get? right = some name →
    disk.read (archive.place name) = .ok bytes → left = right

/-- What is found of a key that has been repaired. -/
def Verdict.settled : Verdict → Verdict
  | .missing => .absent
  | .corrupt _ => .absent
  | verdict => verdict

@[simp] theorem Verdict.settled_settled (verdict : Verdict) : verdict.settled.settled = verdict.settled := by
  cases verdict <;> rfl

@[simp] theorem Verdict.purges_settled (verdict : Verdict) : verdict.settled.purges = false := by
  cases verdict <;> rfl

@[simp] theorem Verdict.found?_settled (verdict : Verdict) : verdict.settled.found? = verdict.found? := by
  cases verdict <;> rfl

theorem Verdict.settled_of_not_purges (kept : verdict.purges = false) : verdict.settled = verdict := by
  cases verdict <;> first | rfl | cases kept

theorem Verdict.settled_of_purges (purges : verdict.purges = true) : verdict.settled = .absent := by
  cases verdict <;> first | rfl | cases purges

/-- After a load its key is settled. -/
theorem inspect_load_self (hazard : Hazard) (archive : Archive) (disk : Disk) (key : String) :
    let outcome := archive.loadAmid hazard disk key
    outcome.archive.inspect (disk.perform outcome.effects) key = (archive.inspect disk key).settled := by
  dsimp only
  cases purges : (archive.inspect disk key).purges with
  | false =>
      obtain ⟨same, idle⟩ := @loadAmid_of_not_purges _ _ _ hazard purges
      rw [same, idle, Verdict.settled_of_not_purges purges]
      rfl
  | true =>
      have dropped := get?_loadAmid hazard archive disk key key
      rw [if_pos ⟨purges, rfl⟩] at dropped
      rw [inspect, dropped, Verdict.settled_of_purges purges]

/-- Every other key is found as before. -/
theorem Mendable.inspect_load_other (mendable : archive.Mendable disk home) (unshared : archive.Unshared disk)
    (kept : List String) (differs : asked ≠ key) :
    let outcome := archive.loadAmid { kept } disk key
    outcome.archive.inspect (disk.perform outcome.effects) asked = archive.inspect disk asked := by
  have index := get?_loadAmid { kept } archive disk key asked
  rw [if_neg fun both => differs both.2] at index
  refine inspect_congr (root_loadAmid _ archive disk key) index fun name indexed => ?_
  rw [mendable.place_eq indexed]
  exact mendable.read_load kept key fun bytes led read =>
    differs (unshared asked key name bytes indexed led read)

theorem indexed_of_load {hazard : Hazard}
    (indexed : (archive.loadAmid hazard disk key).archive.index.get? asked = some name) :
    archive.index.get? asked = some name := by
  rw [get?_loadAmid] at indexed
  split at indexed
  · cases indexed
  · exact indexed

theorem Mendable.unshared_load (mendable : archive.Mendable disk home) (unshared : archive.Unshared disk)
    (kept : List String) (key : String) :
    let outcome := archive.loadAmid { kept } disk key
    outcome.archive.Unshared (disk.perform outcome.effects) := by
  intro outcome left right name bytes led_left led_right read
  have indexed_left := indexed_of_load led_left
  have indexed_right := indexed_of_load led_right
  by_cases own : ∃ held, archive.index.get? key = some name ∧ disk.read (archive.place name) = .ok held
  · obtain ⟨held, indexed, read_own⟩ := own
    exact (unshared left key name held indexed_left indexed read_own).trans
      (unshared right key name held indexed_right indexed read_own).symm
  · have same := mendable.read_load kept key fun held indexed read_own => own ⟨held, indexed, read_own⟩
    rw [(mendable.load kept key).place_eq led_left, records, root_loadAmid, ← records, same,
      ← mendable.place_eq indexed_left] at read
    exact unshared left right name bytes indexed_left indexed_right read

end Archive

namespace Vault

open Archive

variable {vault : Vault} {home : Path}

/-- What is found of a key. -/
def verdict (vault : Vault) (key : String) : Verdict := vault.archive.inspect vault.disk key

/-- Loads keys one after another, while the files of some names cannot be deleted. -/
def loadAll (kept : List String) (vault : Vault) (keys : List String) : Vault :=
  keys.foldl (fun vault key => vault.carryOut (vault.archive.loadAmid { kept } vault.disk key)) vault

/-- Where every file can be deleted, these are the loads of the archive. -/
theorem loadAll_nil (vault : Vault) (keys : List String) :
    vault.loadAll [] keys = vault.actAll (keys.map .load) := by
  have load (vault : Vault) (key : String) :
      vault.carryOut (vault.archive.loadAmid {} vault.disk key) = vault.act (.load key) := by
    rw [loadAmid_calm]
    rfl
  simp only [loadAll, actAll, List.foldl_map, load]

/-- After keys have been loaded, each of them is settled, and every other key is found as before. What was not
found in order is out of the index. -/
theorem loads_settle (mendable : vault.archive.Mendable vault.disk home)
    (unshared : vault.archive.Unshared vault.disk) (kept : List String) (keys : List String)
    (asked : String) :
    (vault.loadAll kept keys).verdict asked =
        (if asked ∈ keys then (vault.verdict asked).settled else vault.verdict asked) ∧
      (vault.loadAll kept keys).archive.index.get? asked =
        if asked ∈ keys ∧ (vault.verdict asked).purges then none else vault.archive.index.get? asked := by
  induction keys generalizing vault with
  | nil => simp [loadAll]
  | cons key keys induction =>
      have loaded : vault.loadAll kept (key :: keys) =
          (vault.carryOut (vault.archive.loadAmid { kept } vault.disk key)).loadAll kept keys := rfl
      have step : (vault.carryOut (vault.archive.loadAmid { kept } vault.disk key)).verdict asked =
          if asked = key then (vault.verdict asked).settled else vault.verdict asked := by
        split
        · rename_i here
          rw [here]
          exact inspect_load_self _ vault.archive vault.disk key
        · exact mendable.inspect_load_other unshared kept ‹_›
      have index : (vault.carryOut (vault.archive.loadAmid { kept } vault.disk key)).archive.index.get? asked =
          if (vault.verdict key).purges ∧ asked = key then none else vault.archive.index.get? asked :=
        get?_loadAmid _ vault.archive vault.disk key asked
      obtain ⟨settled, dropped⟩ :=
        @induction (vault.carryOut (vault.archive.loadAmid { kept } vault.disk key))
          (mendable.load kept key) (mendable.unshared_load unshared kept key)
      rw [step] at settled dropped
      rw [index] at dropped
      rw [loaded, settled, dropped]
      by_cases here : asked = key
      · subst here
        simp
      · simp [here]

/-- A load of a key that is settled answers what was found of it, and changes nothing. -/
theorem load_of_settled {archive : Archive} {disk : Disk} {key : String} {verdict : Verdict}
    (hazard : Hazard) (settled : archive.inspect disk key = verdict.settled) :
    (archive.loadAmid hazard disk key).answer = verdict.found? ∧
      (archive.loadAmid hazard disk key).archive = archive ∧
      (archive.loadAmid hazard disk key).effects = [] := by
  have intact : (archive.inspect disk key).purges = false := by rw [settled, verdict.purges_settled]
  obtain ⟨same, idle⟩ := @loadAmid_of_not_purges _ _ _ hazard intact
  exact ⟨by rw [answer_loadAmid, settled, verdict.found?_settled], same, idle⟩

/-- Of an indexed key whose file can be read, or is missing, either an entry is found or there is something to
repair. -/
theorem isSome_found? {archive : Archive} {disk : Disk} {key name : String}
    (indexed : archive.index.get? key = some name)
    (readable : disk.read (archive.place name) ≠ .error .obstacle) :
    (archive.inspect disk key).found?.isSome = !(archive.inspect disk key).purges := by
  have found := archive.finds disk key
  generalize archive.inspect disk key = verdict at found ⊢
  cases found with
  | absent nowhere => rw [indexed] at nowhere; cases nowhere
  | sound _ _ _ => rfl
  | missing _ _ => rfl
  | unread led refused =>
      cases indexed.symm.trans led
      exact absurd refused readable
  | corrupt _ _ _ => rfl

/-- A load repairs just what it finds broken, leaves every other key in the index as it is, and has nothing to
repair the second time, whatever files cannot be deleted. Loading every key once, where every file can be read
and no two keys share one, leaves the keys that could be loaded, and they still can. -/
theorem load_heals {vault : Vault} (mendable : vault.archive.Mendable vault.disk home) (kept : List String) :
    (∀ key,
      let outcome := vault.archive.loadAmid { kept } vault.disk key
      let again := outcome.archive.loadAmid { kept } (vault.disk.perform outcome.effects) key
      Heals vault.archive vault.disk home kept key outcome ∧
        (∀ other, other ≠ key → outcome.archive.index.get? other = vault.archive.index.get? other) ∧
        again.answer = outcome.answer ∧ again.archive = outcome.archive ∧ again.effects = []) ∧
      (∀ keys : List String, keys.Perm vault.archive.index.keys →
        (∀ key name, vault.archive.index.get? key = some name →
          vault.disk.read (vault.archive.place name) ≠ .error .obstacle) →
        vault.archive.Unshared vault.disk →
        let swept := vault.loadAll kept keys
        (∀ key name, swept.archive.index.get? key = some name ↔
          vault.archive.index.get? key = some name ∧
            (vault.archive.loadAmid { kept } vault.disk key).answer.isSome) ∧
        ∀ key,
          let again := swept.archive.loadAmid { kept } swept.disk key
          again.answer = (vault.archive.loadAmid { kept } vault.disk key).answer ∧
            again.archive = swept.archive ∧ again.effects = [] ∧
            (swept.archive.contains key = true → again.answer.isSome)) ∧
      -- Where every file can be deleted, these are the loads of the archive.
      (∀ (archive : Archive) (disk : Disk) (key : String),
        archive.loadAmid {} disk key = archive.load disk key) ∧
      ∀ keys : List String, vault.loadAll [] keys = vault.actAll (keys.map .load) := by
  obtain ⟨archive, disk⟩ := vault
  have answer (key : String) :
      (archive.loadAmid { kept } disk key).answer = (archive.inspect disk key).found? :=
    answer_loadAmid _ archive disk key
  refine ⟨fun key => ?_, fun keys order readable unshared => ?_, loadAmid_calm, loadAll_nil _⟩
  · intro outcome again
    refine ⟨mendable.heals kept key, fun other differs => ?_, ?_⟩
    · exact (get?_loadAmid _ archive disk key other).trans (if_neg fun both => differs both.2)
    · rw [answer key]
      exact load_of_settled _ (inspect_load_self _ archive disk key)
  · intro swept
    have run := @loads_settle ⟨archive, disk⟩ home mendable unshared kept keys
    have settled (key : String) : swept.archive.inspect swept.disk key =
        (archive.inspect disk key).settled := by
      refine (run key).1.trans ?_
      split
      · rfl
      · rename_i apart
        have nowhere : archive.index.get? key = none := by
          rw [Keyed.get?_eq_none_iff]
          exact fun among => apart (order.mem_iff.2 among)
        have found : archive.inspect disk key = .absent := by rw [inspect, nowhere]
        rw [verdict, found]
        rfl
    have remains (key name : String) : swept.archive.index.get? key = some name ↔
        archive.index.get? key = some name ∧ (archive.loadAmid { kept } disk key).answer.isSome := by
      rw [answer, (run key).2]
      cases indexed : archive.index.get? key with
      | none => simp
      | some held =>
          have among : key ∈ keys := order.mem_iff.2 (Keyed.mem_keys_iff.2 ⟨held, indexed⟩)
          rw [isSome_found? indexed (readable key held indexed), verdict]
          cases (archive.inspect disk key).purges <;> simp [among]
    refine ⟨remains, fun key => ?_⟩
    obtain ⟨found, same, idle⟩ := load_of_settled { kept } (settled key)
    rw [← answer] at found
    refine ⟨found, same, idle, fun held => ?_⟩
    obtain ⟨name, led⟩ := Option.isSome_iff_exists.1 held
    rw [found]
    exact ((remains key name).1 led).2

/-- Of four indexed keys one has its record, one has none, one has a file without a record, and one has the
record of another key. -/
def ailing : Vault where
  archive := ⟨["cache"], [("good", "1.json"), ("gone", "2.json"), ("bad", "3.json"), ("alien", "4.json")]⟩
  disk := ⟨[(["cache"], .folder), (["cache", "records"], .folder),
    (["cache", "records", "1.json"], .file (Entry.new "good" ["p"] .epoch).record),
    (["cache", "records", "3.json"], .file []),
    (["cache", "records", "4.json"], .file (Entry.new "other" [] .epoch).record)]⟩

theorem mendable_ailing : ailing.archive.Mendable ailing.disk ["cache"] := by
  have plain : ∀ pair ∈ ailing.archive.index, NoSlash pair.2 := by decide +kernel
  exact ⟨⟨Disk.follow_eq_folder.1 rfl, by decide +kernel, by decide⟩, by decide,
    fun key name indexed => plain (key, name) (Keyed.mem_of_get? indexed)⟩

/-- Loading the four keys leaves the one that has its record, though the file of another key stays. -/
theorem load_heals_ailing :
    ailing.archive.Mendable ailing.disk ["cache"] ∧
      let outcome := ailing.archive.loadAmid { kept := ["4.json"] } ailing.disk "alien"
      Heals ailing.archive ailing.disk ["cache"] ["4.json"] "alien" outcome ∧
        (ailing.disk.perform outcome.effects).node? ["cache", "records", "4.json"] =
          some (.file (Entry.new "other" [] .epoch).record) ∧
        let swept := ailing.loadAll ["4.json"] ["bad", "good", "alien", "gone"]
        swept.archive.index.get? "good" = some "1.json" ∧ swept.archive.index.get? "alien" = none ∧
          (swept.archive.loadAmid { kept := ["4.json"] } swept.disk "good").answer.isSome := by
  obtain ⟨each, all, _⟩ := load_heals mendable_ailing ["4.json"]
  have readable : ∀ pair ∈ ailing.archive.index,
      ailing.disk.read (ailing.archive.place pair.2) ≠ .error .obstacle := by decide +kernel
  have alone : ∀ left ∈ ailing.archive.index, ∀ right ∈ ailing.archive.index,
      left.2 = right.2 → left.1 = right.1 := by decide
  have unshared : ailing.archive.Unshared ailing.disk := fun left right name _ led_left led_right _ =>
    alone (left, name) (Keyed.mem_of_get? led_left) (right, name) (Keyed.mem_of_get? led_right) rfl
  have order : ["bad", "good", "alien", "gone"].Perm ailing.archive.index.keys := by decide
  have loaded := all ["bad", "good", "alien", "gone"] order
    (fun key name indexed => readable (key, name) (Keyed.mem_of_get? indexed)) unshared
  have good : (ailing.archive.loadAmid { kept := ["4.json"] } ailing.disk "good").answer.isSome = true := by
    decide +kernel
  have alien : (ailing.archive.loadAmid { kept := ["4.json"] } ailing.disk "alien").answer.isSome = false := by
    decide +kernel
  have held := (loaded.1 "good" "1.json").2 ⟨rfl, good⟩
  refine ⟨mendable_ailing, (each "alien").1, by decide +kernel, held, ?_, ?_⟩
  · refine Option.eq_none_iff_forall_ne_some.2 fun name led => ?_
    have answered := ((loaded.1 "alien" name).1 led).2
    rw [alien] at answered
    cases answered
  · refine (loaded.2 "good").2.2.2 ?_
    rw [contains, Keyed.has, held]
    rfl

end Vault

end TieredCache
