import TieredCache.Proofs.Archive.Tidy

/-!
# Operations on a tidy archive

What spilling, loading, removing and clearing do to the shelves, one theorem for each.
-/

namespace TieredCache

namespace Archive

/-- Strokes about different records, and at the end maybe one about the file of the index. -/
structure Proceeds (home : Path) (strokes : List Stroke) : Prop where
  distinct : (strokes.map Stroke.path).Nodup
  within : ∀ stroke ∈ strokes, stroke.folder ∈ [home, recordsAt home]
  last : ∀ stroke ∈ strokes.dropLast, stroke.path ≠ indexAt home

theorem proceeds_nil (home : Path) : Proceeds home [] := by
  refine ⟨List.nodup_nil, ?_, ?_⟩ <;> simp

/-- After changes of different records an index is saved. -/
theorem proceeds_saving {home : Path} {changes : List Stroke}
    (distinct : (changes.map Stroke.path).Nodup)
    (records : ∀ change ∈ changes, change.folder = recordsAt home) (index : Index) :
    Proceeds home (changes ++ [saving home index]) := by
  have apart : ∀ change ∈ changes, change.path ≠ indexAt home := by
    intro change among
    rw [Stroke.path, records change among]
    exact child_ne_indexAt home change.name
  refine ⟨?_, ?_, ?_⟩
  · rw [List.map_append, List.nodup_append]
    refine ⟨distinct, by simp, fun path changed last saved => ?_⟩
    obtain ⟨change, among, rfl⟩ := List.mem_map.1 changed
    rw [List.map_singleton, List.mem_singleton] at saved
    rw [saved]
    exact apart change among
  · intro stroke among
    rcases List.mem_append.1 among with changed | saved
    · rw [records stroke changed]
      simp
    · rw [List.mem_singleton.1 saved]
      exact List.mem_cons_self
  · rw [List.dropLast_concat]
    exact apart

theorem proceeds_recording (home : Path) (key : String) (record : Option Bytes) (index : Index) :
    Proceeds home [recording home key record, saving home index] := by
  refine @proceeds_saving home [recording home key record] (by simp) ?_ index
  intro change among
  rw [List.mem_singleton.1 among]
  rfl

end Archive

/-- An outcome leaves a tidy archive in the same directory, with the given shelves. -/
structure Outcome.Leaves {α : Type} (outcome : Outcome α) (known : String → Prop) (archive : Archive)
    (disk : Disk) (home : Path) (shelves : String → Option Bytes) : Prop where
  root : outcome.archive.root = archive.root
  tidy : outcome.archive.Tidy known (disk.perform outcome.effects) home
  shelves : ∀ asked, outcome.archive.shelf (disk.perform outcome.effects) asked = shelves asked
  strokes : ∃ strokes, outcome.effects = disk.effects strokes ∧ Archive.Proceeds home strokes

namespace Archive

variable {known : String → Prop} {archive : Archive} {disk : Disk} {home : Path}

/-! ## Spilling -/

/-- A spill writes the record first and the index second. -/
theorem Housed.spill_eq (housed : archive.Housed disk home) {entry : Entry}
    (no_folder : disk.node? (recordAt home entry.key) ≠ some .folder)
    (no_index_folder : disk.node? (indexAt home) ≠ some .folder) :
    let index := archive.index.put entry.key (recordName entry.key)
    archive.spill disk entry.key entry =
      ⟨(), { archive with index },
        disk.effects [recording home entry.key (some entry.record), saving home index], []⟩ := by
  have written := Disk.replacement_child (housed.legal entry.key) housed.leads_records
    (plain_recordName entry.key) no_folder entry.record
  have recorded := Disk.updates_effectsOf disk (recording home entry.key (some entry.record))
  have still_housed := housed.update recorded no_folder
    (archive.index.put entry.key (recordName entry.key))
  have index_file : (disk.perform (disk.effectsOf
      (recording home entry.key (some entry.record)))).node? (indexAt home) ≠ some .folder := by
    rw [recorded.elsewhere (recordAt_ne_indexAt home entry.key).symm]
    exact no_index_folder
  obtain ⟨saved, _⟩ := still_housed.save_spec index_file .unsavedSpill
  simp only [recording] at saved
  simp only [Archive.spill, written, saved, Disk.effects, recording, List.append_nil]

/-- A spilled entry is on the shelf of its key. -/
theorem Tidy.spill (tidy : archive.Tidy known disk home) (distinct : DistinctNames known)
    {entry : Entry} (key_known : known entry.key) :
    (archive.spill disk entry.key entry).Leaves known archive disk home fun asked =>
      if asked = entry.key then some entry.record else archive.shelf disk asked := by
  have outcome := tidy.toHoused.spill_eq (tidy.no_folder_recordAt distinct key_known)
    (by rw [tidy.saved]; simp)
  have own : ∀ bytes ∈ some entry.record, ∃ other : Entry,
      other.key = entry.key ∧ bytes = other.record := by
    rintro bytes ⟨⟩
    exact ⟨entry, rfl, rfl⟩
  obtain ⟨kept, shelves⟩ := tidy.reshelve distinct key_known own
  rw [outcome]
  exact ⟨rfl, kept, shelves, _, rfl, proceeds_recording home entry.key _ _⟩

/-! ## Loading -/

/-- The verdict on what is on the shelf of a key. -/
def verdictOn (key : String) : Option Bytes → Verdict
  | none => .absent
  | some bytes =>
    match Entry.readOwn? key bytes with
    | some entry => .sound entry
    | none => .corrupt (recordName key)

theorem Tidy.inspect_eq (tidy : archive.Tidy known disk home) (key : String) :
    archive.inspect disk key = verdictOn key (archive.shelf disk key) := by
  cases indexed : archive.index.get? key with
  | none =>
      rw [tidy.shelf_eq_none_iff.2 indexed, inspect, indexed]
      rfl
  | some name =>
      obtain ⟨entry, _, shelf, record⟩ := tidy.shelf_of_get? indexed
      obtain ⟨_, rfl, _⟩ := tidy.indexed key name indexed
      rw [shelf, inspect, indexed]
      simp only [tidy.read_record, record]
      rfl

/-- What a look at a tidy archive may have found. -/
def Verdict.Proper (key : String) : Verdict → Prop
  | .absent => True
  | .sound entry => entry.key = key
  | .corrupt name => name = recordName key
  | .missing => False
  | .unread => False

theorem verdictOn_proper (key : String) (record : Option Bytes) : (verdictOn key record).Proper key := by
  unfold verdictOn
  split
  · trivial
  · split
    · rename_i read
      exact Entry.key_of_readOwn? read
    · rfl

/-- The entry that a verdict brings. -/
def Verdict.found? : Verdict → Option Entry
  | .sound entry => some entry
  | _ => none

/-- A verdict on account of which the key is forgotten. -/
def Verdict.purges : Verdict → Bool
  | .missing => true
  | .corrupt _ => true
  | _ => false

theorem answer_settle (archive : Archive) (disk : Disk) (key : String) (verdict : Verdict) :
    (archive.settle disk key verdict).answer = verdict.found? := by
  cases verdict <;> rfl

/-- What is loaded for a key is read from the record on its shelf. -/
theorem answer_load (archive : Archive) (disk : Disk) (key : String) :
    (archive.load disk key).answer = (archive.shelf disk key).bind (Entry.readOwn? key) := by
  have found : (archive.load disk key).answer = (archive.inspect disk key).found? :=
    answer_settle archive disk key (archive.inspect disk key)
  rw [found, inspect, shelf]
  cases archive.index.get? key with
  | none => rfl
  | some name =>
      simp only [Option.bind_some]
      cases disk.read (archive.place name) with
      | error refusal => cases refusal <;> rfl
      | ok bytes =>
          simp only [Except.toOption, Option.bind_some]
          cases Entry.readOwn? key bytes <;> rfl

theorem Tidy.unchanged {α : Type} (tidy : archive.Tidy known disk home) (answer : α)
    (notices : List Notice) : Outcome.Leaves ⟨answer, archive, [], notices⟩ known archive disk home
      (archive.shelf disk) :=
  ⟨rfl, tidy, fun _ => rfl, [], rfl, proceeds_nil home⟩

/-- A key that is not indexed has an empty shelf already. -/
theorem Tidy.unchanged_absent {α : Type} (tidy : archive.Tidy known disk home) {key : String}
    (absent : archive.index.get? key = none) (answer : α) (notices : List Notice) :
    Outcome.Leaves ⟨answer, archive, [], notices⟩ known archive disk home fun asked =>
      if asked = key then none else archive.shelf disk asked := by
  refine ⟨rfl, tidy, fun asked => ?_, [], rfl, proceeds_nil home⟩
  by_cases same : asked = key
  · rw [if_pos same, same]
    exact tidy.shelf_eq_none_iff.2 absent
  · rw [if_neg same]
    rfl

theorem Tidy.deletion_absent (tidy : archive.Tidy known disk home) (distinct : DistinctNames known)
    {key : String} (key_known : known key) (absent : archive.index.get? key = none) :
    disk.deletion (archive.place (recordName key)) = .error .missing := by
  have standing := tidy.node?_recordAt distinct key_known
  rw [tidy.shelf_eq_none_iff.2 absent] at standing
  rw [tidy.deletion_record, standing]
  rfl

/-- The record of an indexed key can be deleted, and the key taken out of the index. -/
theorem Tidy.drop (tidy : archive.Tidy known disk home) (distinct : DistinctNames known)
    {key name : String} (indexed : archive.index.get? key = some name) (failure : Notice) :
    let index := archive.index.erase key
    ∃ effect saving, disk.deletion (archive.place name) = .ok effect ∧
      save { archive with index } (disk.apply effect) failure = (saving, []) ∧
      Outcome.Leaves ⟨(), { archive with index }, effect :: saving, []⟩ known archive disk home
        fun asked => if asked = key then none else archive.shelf disk asked := by
  obtain ⟨key_known, rfl, entry, _, record⟩ := tidy.indexed key name indexed
  have deletion : disk.deletion (archive.place (recordName key)) =
      .ok (.deleteFile (recordAt home key)) := by
    rw [tidy.deletion_record, record]
  have deleted : Disk.Updates disk (recordAt home key) none
      (disk.apply (.deleteFile (recordAt home key))) :=
    Disk.updates_effectsOf disk (recording home key none)
  have housed := tidy.toHoused.update deleted (tidy.no_folder_recordAt distinct key_known)
    (archive.index.erase key)
  have index_file : (disk.apply (.deleteFile (recordAt home key))).node? (indexAt home) ≠
      some .folder := by
    rw [deleted.elsewhere (recordAt_ne_indexAt home key).symm, tidy.saved]
    simp
  obtain ⟨saved, _⟩ := housed.save_spec index_file failure
  have own : ∀ bytes ∈ (none : Option Bytes), ∃ entry : Entry,
      entry.key = key ∧ bytes = entry.record := by
    rintro bytes ⟨⟩
  obtain ⟨kept, shelves⟩ := tidy.reshelve distinct key_known own
  have effects : .deleteFile (recordAt home key) ::
      (disk.apply (.deleteFile (recordAt home key))).effectsOf
        (saving home (archive.index.erase key)) =
        disk.effects [recording home key none, saving home (archive.index.erase key)] := by
    rw [Disk.effects_cons, Disk.effects_singleton]
    rfl
  refine ⟨_, _, deletion, saved, rfl, ?_, ?_, _, effects, proceeds_recording home key none _⟩
  · rw [effects]
    exact kept
  · rw [effects]
    exact shelves

/-- A verdict that has no record to show for clears the shelf of its key, whatever is on it by then. -/
theorem Tidy.settle (tidy : archive.Tidy known disk home) (distinct : DistinctNames known)
    {key : String} (key_known : known key) {verdict : Verdict} (proper : verdict.Proper key) :
    (archive.settle disk key verdict).Leaves known archive disk home fun asked =>
      if verdict.purges ∧ asked = key then none else archive.shelf disk asked := by
  cases verdict with
  | absent =>
      simp only [Verdict.purges, Bool.false_eq_true, false_and, if_false]
      exact tidy.unchanged none []
  | sound entry =>
      simp only [Verdict.purges, Bool.false_eq_true, false_and, if_false]
      exact tidy.unchanged (some entry) []
  | missing => exact proper.elim
  | unread => exact proper.elim
  | corrupt name =>
      obtain rfl : name = recordName key := proper
      simp only [Verdict.purges, true_and]
      cases indexed : archive.index.get? key with
      | none =>
          have outcome : archive.settle disk key (.corrupt (recordName key)) =
              ⟨none, archive, [], []⟩ := by
            have absent : archive.contains key = false := by simp [Archive.contains, Keyed.has, indexed]
            simp [Archive.settle, tidy.deletion_absent distinct key_known indexed, forget, absent]
          rw [outcome]
          exact tidy.unchanged_absent indexed none []
      | some name =>
          obtain ⟨_, rfl, _⟩ := tidy.indexed key name indexed
          obtain ⟨effect, saving, deletion, saved, leaves⟩ := tidy.drop distinct indexed .unsavedRepair
          have outcome : archive.settle disk key (.corrupt (recordName key)) =
              ⟨none, { archive with index := archive.index.erase key }, effect :: saving, []⟩ := by
            have present : archive.contains key = true := by simp [Archive.contains, Keyed.has, indexed]
            simp [Archive.settle, deletion, forget, present, saved]
          rw [outcome]
          exact ⟨leaves.root, leaves.tidy, leaves.shelves, leaves.strokes⟩

/-! ## Removing -/

/-- A removed key has an empty shelf. The answer is whether there was something on it. -/
theorem Tidy.remove (tidy : archive.Tidy known disk home) (distinct : DistinctNames known)
    {key : String} (key_known : known key) :
    (archive.remove disk key).answer = (archive.shelf disk key).isSome ∧
      (archive.remove disk key).Leaves known archive disk home fun asked =>
        if asked = key then none else archive.shelf disk asked := by
  cases indexed : archive.index.get? key with
  | none =>
      have outcome : archive.remove disk key = ⟨false, archive, [], []⟩ := by
        simp [Archive.remove, indexed, tidy.deletion_absent distinct key_known indexed]
      rw [outcome, tidy.shelf_eq_none_iff.2 indexed]
      exact ⟨rfl, tidy.unchanged_absent indexed false []⟩
  | some name =>
      obtain ⟨effect, saving, deletion, saved, leaves⟩ := tidy.drop distinct indexed .unsavedRemoval
      obtain ⟨entry, _, shelf, _⟩ := tidy.shelf_of_get? indexed
      have outcome : archive.remove disk key =
          ⟨true, { archive with index := archive.index.erase key }, effect :: saving, []⟩ := by
        simp [Archive.remove, indexed, deletion, saved]
      rw [outcome, shelf]
      exact ⟨rfl, leaves.root, leaves.tidy, leaves.shelves, leaves.strokes⟩

end Archive

end TieredCache
