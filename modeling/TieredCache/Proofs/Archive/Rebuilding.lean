import TieredCache.Archive.Recovery
import TieredCache.Proofs.Archive.Saving

/-!
# Making an index anew

What a scan of the records comes to, whatever is among them: a key is led to the last file of the listing
that holds a record of it. Where no two files hold records of one key, the order of the listing does not
count, and the index that is made holds just these keys and files.
-/

namespace TieredCache.Archive

/-! ## Scanning -/

section Scanning

variable {read : String → Except Refusal Bytes} {names : List String} {index : Index} {key name : String}

/-- The key that a scan takes from the file of a name. -/
def scanned? (read : String → Except Refusal Bytes) (name : String) : Option String :=
  if isRecordName name then (read name).toOption.bind embeddedKey? else none

theorem scan_cons (read : String → Except Refusal Bytes) (name : String) (names : List String)
    (index : Index) :
    (scan read (name :: names) index).1 =
      match scanned? read name with
      | some key => (scan read names (index.put key name)).1
      | none => (scan read names index).1 := by
  rw [scan, scanned?]
  split
  · cases (read name).toOption.bind embeddedKey? <;> rfl
  · rfl

/-- A scan leads a key to the last file that holds a record of it, and from any other key where it led
before. -/
theorem get?_scan (read : String → Except Refusal Bytes) (names : List String) (index : Index)
    (key : String) :
    (scan read names index).1.get? key =
      (names.filter fun name => scanned? read name = some key).getLast?.or (index.get? key) := by
  induction names generalizing index with
  | nil => rfl
  | cons name names induction =>
      rw [scan_cons]
      cases found : scanned? read name with
      | none =>
          simp only [induction]
          rw [List.filter_cons_of_neg (by simp [found])]
      | some own =>
          simp only [induction, Keyed.get?_put]
          by_cases same : key = own
          · subst same
            rw [List.filter_cons_of_pos (by simp [found]), if_pos rfl, List.getLast?_cons]
            cases (names.filter fun name => scanned? read name = some key).getLast? <;> rfl
          · rw [List.filter_cons_of_neg (by simp [found, Ne.symm same]), if_neg same]

theorem nodup_scan (read : String → Except Refusal Bytes) (names : List String)
    (distinct : index.keys.Nodup) : (scan read names index).1.keys.Nodup := by
  induction names generalizing index with
  | nil => exact distinct
  | cons name names induction =>
      rw [scan_cons]
      split
      · exact induction (Keyed.nodup_put distinct _ _)
      · exact induction distinct

/-- A scan notes the files that it skips and nothing else. -/
theorem notices_scan (read : String → Except Refusal Bytes) (names : List String) (index : Index) :
    ∀ notice ∈ (scan read names index).2, notice = .skippedRecord := by
  induction names generalizing index with
  | nil => simp [scan]
  | cons name names induction =>
      rw [scan]
      split
      · split
        · exact induction _
        · exact List.forall_mem_cons.2 ⟨rfl, induction index⟩
      · exact induction index

/-- If no two files of a listing hold records of one key, a scan pairs just the keys with their files. -/
theorem mem_scan_iff
    (single : ∀ left right, scanned? read left = some key → scanned? read right = some key → left = right) :
    (key, name) ∈ (scan read names []).1 ↔ name ∈ names ∧ scanned? read name = some key := by
  have distinct := @nodup_scan [] read names List.nodup_nil
  have lookup := get?_scan read names [] key
  rw [Keyed.get?_nil, Option.or_none] at lookup
  constructor
  · intro paired
    have found := Keyed.get?_of_mem distinct paired
    rw [lookup] at found
    obtain ⟨listed, own⟩ := List.mem_filter.1 (List.mem_of_getLast? found)
    exact ⟨listed, by simpa using own⟩
  · rintro ⟨listed, own⟩
    have among : name ∈ names.filter fun name => scanned? read name = some key :=
      List.mem_filter.2 ⟨listed, by simpa using own⟩
    obtain ⟨last, found⟩ :=
      Option.isSome_iff_exists.1 (List.getLast?_isSome.2 (List.ne_nil_of_mem among))
    have last_own := (List.mem_filter.1 (List.mem_of_getLast? found)).2
    obtain rfl := single last name (by simpa using last_own) own
    exact Keyed.mem_of_get? (lookup.trans found)

end Scanning

/-! ## The records of a disk -/

/-- A file has the name of a record, and a record of a key in it as far as its key can be read. -/
structure RecordOf (root : Route) (disk : Disk) (key name : String) : Prop where
  named : isRecordName name = true
  held : ∃ bytes, disk.read (root ++ ["records"] ++ [name]) = .ok bytes ∧ embeddedKey? bytes = some key

/-- No two files of a disk hold records of one key. -/
def Single (root : Route) (disk : Disk) : Prop :=
  ∀ key left right, RecordOf root disk key left → RecordOf root disk key right → left = right

/-- An index leads from just the keys of records to their files. -/
structure Exact (index : Index) (root : Route) (disk : Disk) : Prop where
  distinct : index.keys.Nodup
  pairs : ∀ key name, (key, name) ∈ index ↔ RecordOf root disk key name

/-- The index that the records of a disk give. -/
def census (root : Route) (disk : Disk) : Index :=
  match disk.list (root ++ ["records"]) with
  | .ok names => (scan (fun name => disk.read (root ++ ["records"] ++ [name])) names []).1
  | .error _ => []

variable {archive : Archive} {disk listed : Disk} {root : Route} {key name : String}

theorem scanned?_eq_some :
    scanned? (fun name => disk.read (root ++ ["records"] ++ [name])) name = some key ↔
      RecordOf root disk key name := by
  rw [scanned?]
  constructor
  · intro found
    split at found
    · rename_i named
      obtain ⟨bytes, read, own⟩ := Option.bind_eq_some_iff.1 found
      refine ⟨named, bytes, ?_, own⟩
      cases held : disk.read (root ++ ["records"] ++ [name]) with
      | error refusal =>
          rw [held] at read
          cases read
      | ok other =>
          rw [held] at read
          cases read
          rfl
    · cases found
  · rintro ⟨named, bytes, read, own⟩
    rw [if_pos named, read]
    exact own

theorem nodup_census (root : Route) (disk : Disk) : (census root disk).keys.Nodup := by
  rw [census]
  split
  · exact nodup_scan _ _ List.nodup_nil
  · exact List.nodup_nil

/-- A key of which no two files hold records is led to the file that holds one. -/
theorem mem_census_iff
    (single : ∀ left right, RecordOf root disk key left → RecordOf root disk key right → left = right) :
    (key, name) ∈ census root disk ↔ RecordOf root disk key name := by
  rw [census]
  split
  · rename_i names list
    rw [mem_scan_iff fun left right own_left own_right =>
      single left right (scanned?_eq_some.1 own_left) (scanned?_eq_some.1 own_right), scanned?_eq_some]
    refine ⟨And.right, fun record => ⟨?_, record⟩⟩
    obtain ⟨bytes, read, _⟩ := record.held
    obtain ⟨others, again, among⟩ := Disk.mem_list_of_read read
    rw [list] at again
    cases again
    exact among
  · rename_i refusal list
    refine iff_of_false List.not_mem_nil fun record => ?_
    obtain ⟨bytes, read, _⟩ := record.held
    obtain ⟨names, again, _⟩ := Disk.mem_list_of_read read
    rw [list] at again
    cases again

theorem exact_census (single : Single root disk) : Exact (census root disk) root disk :=
  ⟨nodup_census root disk, fun key _ => mem_census_iff (single key)⟩

theorem recordOf_congr
    (same : ∀ name, listed.read (root ++ ["records"] ++ [name]) = disk.read (root ++ ["records"] ++ [name]))
    (key name : String) : RecordOf root listed key name ↔ RecordOf root disk key name :=
  ⟨fun ⟨named, held⟩ => ⟨named, by rwa [← same]⟩, fun ⟨named, held⟩ => ⟨named, by rwa [same]⟩⟩

theorem census_congr (list : listed.list (root ++ ["records"]) = disk.list (root ++ ["records"]))
    (same : ∀ name, listed.read (root ++ ["records"] ++ [name]) = disk.read (root ++ ["records"] ++ [name])) :
    census root listed = census root disk := by
  rw [census, census, list]
  simp only [same]

theorem Exact.congr {index : Index} (exact : Exact index root listed)
    (same : ∀ name, listed.read (root ++ ["records"] ++ [name]) = disk.read (root ++ ["records"] ++ [name])) :
    Exact index root disk :=
  ⟨exact.distinct, fun key name => (exact.pairs key name).trans (recordOf_congr same key name)⟩

/-! ## Rebuilding -/

/-- A rebuilding takes up the index that the records give, and saves it. -/
theorem rebuild_spec (archive : Archive) (disk : Disk) :
    let outcome := archive.rebuild disk
    outcome.archive = ⟨archive.root, census archive.root disk⟩ ∧
      outcome.answer = outcome.archive.index.length ∧
      outcome.effects = (outcome.archive.save disk .unsavedRebuild).1 ∧
      ∃ sights : List Notice, .unsavedRebuild ∉ sights ∧
        outcome.notices = sights ++ (outcome.archive.save disk .unsavedRebuild).2 := by
  unfold rebuild census records
  cases disk.list (archive.root ++ ["records"]) with
  | error refusal => exact ⟨rfl, rfl, rfl, [.unscannedRecords], by simp, rfl⟩
  | ok names =>
      refine ⟨rfl, rfl, rfl, _, fun noted => ?_, rfl⟩
      cases notices_scan _ _ _ _ noted

theorem rebuild_cases (archive : Archive) (disk : Disk) :
    (∃ home, archive.Savable disk home ∧
      (archive.rebuild disk).effects = disk.effectsOf (saving home (census archive.root disk)) ∧
      .unsavedRebuild ∉ (archive.rebuild disk).notices) ∨
      (archive.rebuild disk).effects = [] ∧ .unsavedRebuild ∈ (archive.rebuild disk).notices := by
  obtain ⟨taken_up, _, effects, sights, others, notices⟩ := archive.rebuild_spec disk
  rw [taken_up] at effects notices
  rcases save_cases ⟨archive.root, census archive.root disk⟩ disk .unsavedRebuild with
    ⟨home, savable, saved⟩ | refused
  · rw [saved] at effects notices
    exact .inl ⟨home, savable.withIndex archive.index, effects, by rwa [notices, List.append_nil]⟩
  · rw [refused] at effects notices
    exact .inr ⟨effects, by rw [notices]; simp⟩

/-- A rebuilding notes that it could not save the index just when it cannot be saved. -/
theorem unsavedRebuild_notMem_iff (archive : Archive) (disk : Disk) :
    .unsavedRebuild ∉ (archive.rebuild disk).notices ↔ ∃ home, archive.Savable disk home := by
  obtain ⟨taken_up, _, _, sights, others, notices⟩ := archive.rebuild_spec disk
  constructor
  · intro unnoted
    rcases archive.rebuild_cases disk with ⟨home, savable, _⟩ | ⟨_, noted⟩
    · exact ⟨home, savable⟩
    · exact absurd noted unnoted
  · rintro ⟨home, savable⟩
    rwa [notices, taken_up, (savable.withIndex _).save_eq, List.append_nil]

/-- A rebuilding leaves the records alone. -/
theorem read_rebuild (archive : Archive) (disk : Disk) (name : String) :
    (disk.perform (archive.rebuild disk).effects).read (archive.records ++ [name]) =
      disk.read (archive.records ++ [name]) := by
  rcases archive.rebuild_cases disk with ⟨home, savable, effects, _⟩ | ⟨effects, _⟩
  · rw [effects]
    exact savable.read_record _ name
  · rw [effects]
    rfl

/-- Whether an index can be saved does not depend on the order in which folders are listed. -/
theorem savable_congr {home : Path} (agree : Disk.Agree disk listed) :
    archive.Savable disk home ↔ archive.Savable listed home :=
  ⟨fun ⟨leads, legal, free⟩ => ⟨agree.leads.1 leads, legal, by rwa [← agree]⟩,
    fun ⟨leads, legal, free⟩ => ⟨agree.leads.2 leads, legal, by rwa [agree]⟩⟩

/-- The index of an archive has been made anew from the records of a disk that lists them in some order. -/
structure Rebuilds (archive : Archive) (disk listed : Disk) (outcome : Outcome Nat) : Prop where
  root : outcome.archive.root = archive.root
  exact : Exact outcome.archive.index archive.root disk
  counted : outcome.answer = outcome.archive.index.length
  /-- A failure to save the index is noted just when there is no place for it. -/
  noted : .unsavedRebuild ∉ outcome.notices ↔ ∃ home, archive.Savable disk home
  saved : .unsavedRebuild ∉ outcome.notices →
    outcome.archive.OnFile (listed.perform outcome.effects)
  records : ∀ name, (listed.perform outcome.effects).read (archive.records ++ [name]) =
    disk.read (archive.records ++ [name])
  elsewhere : ∀ path, (∀ home, disk.folderAt archive.root = .ok home → path ≠ indexAt home) →
    (listed.perform outcome.effects).node? path = disk.node? path

theorem rebuilds (single : Single archive.root disk) (agree : Disk.Agree disk listed) :
    Rebuilds archive disk listed (archive.rebuild listed) := by
  have reads : ∀ name, listed.read (archive.root ++ ["records"] ++ [name]) =
      disk.read (archive.root ++ ["records"] ++ [name]) := fun name => (agree.read _).symm
  have single_listed : Single archive.root listed := fun key left right own_left own_right =>
    single key left right ((recordOf_congr reads key left).1 own_left)
      ((recordOf_congr reads key right).1 own_right)
  obtain ⟨taken_up, counted, _, _⟩ := archive.rebuild_spec listed
  have exact := exact_census single_listed
  refine ⟨by rw [taken_up], by rw [taken_up]; exact exact.congr reads, counted,
    (archive.unsavedRebuild_notMem_iff listed).trans (exists_congr fun home => (savable_congr agree).symm), ?_,
    fun name => (archive.read_rebuild listed name).trans (reads name), ?_⟩
  all_goals
    rcases archive.rebuild_cases listed with ⟨home, savable, effects, _⟩ | ⟨effects, failed⟩
  · rw [effects, taken_up]
    exact fun _ => ((savable.saved _).withIndex _).onFile exact.distinct
      (Disk.updates_effectsOf listed (saving home _)).here
  · exact fun unfailed => absurd failed unfailed
  · intro path apart
    have there : disk.folderAt archive.root = .ok home := by
      rw [agree.folderAt, Disk.folderAt_eq_ok_iff]
      exact ⟨Disk.isLegal_of_append savable.legal, savable.leads⟩
    rw [effects, (Disk.updates_effectsOf listed (saving home _)).elsewhere (apart home there)]
    exact (agree path).symm
  · intro path _
    rw [effects]
    exact (agree path).symm

/-- After a rebuilding the records give the same index. -/
theorem census_rebuild (archive : Archive) (disk : Disk) :
    census archive.root (disk.perform (archive.rebuild disk).effects) = census archive.root disk := by
  rcases archive.rebuild_cases disk with ⟨home, savable, effects, _⟩ | ⟨effects, _⟩
  · rw [effects]
    exact census_congr (savable.list_records _) (savable.read_record _)
  · rw [effects]
    rfl

/-- An index that is made anew a second time stays the same, and so does the disk. -/
theorem rebuild_again (archive : Archive) (disk : Disk) :
    let once := archive.rebuild disk
    let after := disk.perform once.effects
    let twice := once.archive.rebuild after
    twice.archive = once.archive ∧ twice.answer = once.answer ∧
      Disk.Agree after (after.perform twice.effects) := by
  intro once after twice
  obtain ⟨taken_up, counted, effects, _⟩ := archive.rebuild_spec disk
  obtain ⟨taken_up_again, counted_again, effects_again, _⟩ := once.archive.rebuild_spec after
  have root : once.archive.root = archive.root := by rw [taken_up]
  have same : twice.archive = once.archive := by
    rw [taken_up_again, root, archive.census_rebuild disk]
    exact taken_up.symm
  refine ⟨same, ?_, ?_⟩
  · rw [counted_again, counted, same]
  · rw [effects_again, show once.archive.rebuild after = twice from rfl, same,
      show after = disk.perform once.effects from rfl, effects]
    exact agree_save_again once.archive disk .unsavedRebuild

end TieredCache.Archive
