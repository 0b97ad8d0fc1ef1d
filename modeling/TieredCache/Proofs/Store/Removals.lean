import TieredCache.Proofs.Archive.Removals
import TieredCache.Proofs.Calls.Residency

/-!
# Removals and clearings on any disk

A removal and a clearing take effect in memory whatever is on the disk and whatever goes wrong: a record may be
missing, corrupt or not to be deleted, and the index not to be saved. On the disk they delete the records that
they are about and write the index, and they file nothing. Where the index has been written, a cache that is
opened on it later does not list what is gone.
-/

namespace TieredCache

namespace Store

variable {store after : Store} {key : String}

/-- A lookup of a key that brings no paths misses, whoever answers it, and only counts as a miss. -/
def OnlyMisses (store : Store) (key : String) : Prop :=
  ∀ {σ : Type} (resolve : Resolver σ) (state : σ) (deadline : Option Nat) (now : Moment),
    store.get resolve state ⟨key, none, deadline⟩ now = .ok (none, store.count .miss, state)

/-- A cache that is opened later in the same directory, where the file of the index still reads the same, does
not list a key. -/
def Unlisted (store : Store) (key : String) : Prop :=
  ∀ (later : Disk) (settings : Settings) (resolving : Bool) (describer : Option Describer) (reopened : Store),
    later.read store.cache.archive.indexFile = store.disk.read store.cache.archive.indexFile →
    Route.join [] settings.directory = store.cache.archive.root →
    opened later settings resolving describer = .ok reopened →
    reopened.cache.archive.contains key = false

/-- A key that is in neither tier is missed. -/
theorem onlyMisses_of_absent (nonempty : key.isEmpty = false)
    (slot : store.cache.recent.contains key = false) (shelf : store.cache.archive.contains key = false) :
    store.OnlyMisses key := by
  intro σ resolve state deadline now
  have slot : store.cache.recent.slots.get? key = none := Keyed.has_eq_false_iff.1 slot
  have shelf : store.cache.archive.index.get? key = none := Keyed.has_eq_false_iff.1 shelf
  have searched : Run.advance resolve ⟨key, none, deadline⟩ now Run.searchSteps ⟨.begun, store, state⟩ =
      ⟨.done none, store.count .miss, state⟩ := by
    simp [Run.searchSteps, Run.advance, Run.next, Lookup.question?, Lookup.step, Recent.fetch, slot,
      Archive.inspect, shelf, Archive.Verdict.notices, Archive.settle, Lookup.ofPaths, note, carryOut, count]
  rw [get_eq store resolve state now nonempty, Run.whole]
  simp only [searched, Run.advance_done]
  rfl

/-- Where the file of the index holds what the archive has, no later cache lists what is not indexed. -/
theorem unlisted_of_read
    (read : store.disk.read store.cache.archive.indexFile = .ok (Index.write store.cache.archive.index))
    (absent : store.cache.archive.contains key = false) : store.Unlisted key := by
  intro later settings resolving describer reopened same directory opens
  obtain ⟨made, _, cache⟩ := opened_ok opens
  -- The later cache reads the index from the file before it looks at any record.
  have written := same.trans read
  rw [Archive.indexFile, ← directory] at written
  rw [Bool.eq_false_iff]
  intro listed
  rw [cache] at listed
  have indexed := Archive.contains_establish written made listed
  rw [← Archive.contains, absent] at indexed
  cases indexed

/-- What the removal of a key answers amid a hazard, and the store that it leaves. -/
structure Removes (hazard : Hazard) (store : Store) (key : String) (answer : Bool) (after : Store) :
    Prop where
  /-- The key is in neither tier, and the next lookup of it misses. -/
  gone : after.cache.recent.contains key = false ∧ after.cache.archive.contains key = false
  misses : after.OnlyMisses key
  /-- Every other key has what it had in both tiers. -/
  others : ∀ other, other ≠ key →
    after.cache.recent.slots.get? other = store.cache.recent.slots.get? other ∧
      after.cache.archive.index.get? other = store.cache.archive.index.get? other
  /-- The other keys of tier 1 keep their order. -/
  order : after.cache.recent.keys = store.cache.recent.keys.filter fun other => other != key
  answer_iff : answer = true ↔ store.cache.recent.contains key = true ∨
    store.cache.archive.contains key = true ∨ store.cache.archive.contains key = false ∧
      ∃ path bytes,
        store.disk.locate (store.cache.archive.place (recordName key)) = .ok (.file path bytes) ∧
          after.disk.node? path = none
  /-- Nothing is filed: at most the record is gone, and the index is written. -/
  files : ∀ path, store.cache.archive.Unfiled hazard
    (· = (store.cache.archive.index.get? key).getD (recordName key)) store.disk after.disk path
  /-- An index that had to be written, and is not noted as unsaved, is written. That is so where it can be saved
  and nothing goes wrong with it. -/
  saved : ∃ noted, after.notices = store.notices ++ noted ∧ (store.cache.archive.contains key = true →
    (.unsavedRemoval ∉ noted →
      after.disk.read after.cache.archive.indexFile = .ok (Index.write after.cache.archive.index)) ∧
    (hazard.index = none → (∃ home, store.cache.archive.Savable store.disk home) →
      .unsavedRemoval ∉ noted))
  unlisted :
    after.disk.read after.cache.archive.indexFile = .ok (Index.write after.cache.archive.index) →
      after.Unlisted key

/-- What a clearing of both tiers answers amid a hazard, and the store that it leaves. -/
structure Empties (hazard : Hazard) (store : Store) (cleared : Cleared) (after : Store) : Prop where
  counts : cleared = ⟨store.cache.recent.size, store.cache.archive.size⟩
  /-- Both tiers are empty, and every lookup misses. -/
  empty : after.cache.recent.slots = [] ∧ after.cache.archive.index = []
  misses : ∀ key, key ≠ "" → after.OnlyMisses key
  /-- Nothing is filed: at most the records that the index names are gone, and the index is written. -/
  files : ∀ path, store.cache.archive.Unfiled hazard (· ∈ store.cache.archive.index.map Prod.snd)
    store.disk after.disk path
  saved : ∃ noted, after.notices = store.notices ++ noted ∧
    (.unsavedClear ∉ noted →
      after.disk.read after.cache.archive.indexFile = .ok (Index.write after.cache.archive.index)) ∧
    (hazard.index = none → (∃ home, store.cache.archive.Savable store.disk home) → .unsavedClear ∉ noted)
  unlisted :
    after.disk.read after.cache.archive.indexFile = .ok (Index.write after.cache.archive.index) →
      ∀ key, after.Unlisted key

/-- What a clearing of tier 1 alone answers, and the store that it leaves: tier 2 has no part in it. -/
structure EmptiesRecent (store : Store) (cleared : Cleared) (after : Store) : Prop where
  counts : cleared = ⟨store.cache.recent.size, 0⟩
  empty : after.cache.recent.slots = []
  archive : after.cache.archive = store.cache.archive
  disk : after.disk = store.disk

/-- The store after a key has been removed amid a hazard. -/
def removed (hazard : Hazard) (store : Store) (key : String) : Store :=
  (store.withRecent (store.cache.recent.erase key).2).carryOut
    (store.cache.archive.removeAmid hazard store.disk key)

theorem removeAmid_eq (hazard : Hazard) (store : Store) (nonempty : key.isEmpty = false) :
    store.removeAmid hazard key = .ok ((store.cache.recent.erase key).1.isSome ||
      (store.cache.archive.removeAmid hazard store.disk key).answer, store.removed hazard key) := by
  simp only [removeAmid, Fault.checkKey, nonempty]
  rfl

theorem slots_removed (hazard : Hazard) (store : Store) (key : String) :
    (store.removed hazard key).cache.recent.slots = store.cache.recent.slots.erase key := rfl

theorem archive_removed (hazard : Hazard) (store : Store) (key : String) :
    (store.removed hazard key).cache.archive =
      { store.cache.archive with index := store.cache.archive.index.erase key } :=
  store.cache.archive.archive_removeAmid hazard store.disk key

theorem gone_removed (hazard : Hazard) (store : Store) (key : String) :
    (store.removed hazard key).cache.recent.contains key = false ∧
      (store.removed hazard key).cache.archive.contains key = false := by
  rw [Recent.contains, slots_removed, Archive.contains, archive_removed, Keyed.has, Keyed.has,
    Keyed.get?_erase, Keyed.get?_erase, if_pos rfl, if_pos rfl]
  exact ⟨rfl, rfl⟩

/-- Every removal of a key takes effect, whatever is on the disk and whatever goes wrong. -/
theorem removes_remove (hazard : Hazard) (store : Store) (nonempty : key ≠ "") :
    ∃ answer after, store.removeAmid hazard key = .ok (answer, after) ∧
      store.Removes hazard key answer after := by
  have nonempty : key.isEmpty = false := by simpa using nonempty
  have gone := store.gone_removed hazard key
  refine ⟨_, store.removed hazard key, store.removeAmid_eq hazard nonempty, gone,
    onlyMisses_of_absent nonempty gone.1 gone.2, fun other differs => ?_, ?_, ?_,
    store.cache.archive.unfiled_removeAmid hazard store.disk key,
    ⟨(store.cache.archive.removeAmid hazard store.disk key).notices, rfl, fun indexed => ?_⟩,
    fun read => unlisted_of_read read gone.2⟩
  · rw [slots_removed, archive_removed, Keyed.get?_erase, Keyed.get?_erase, if_neg differs, if_neg differs]
    exact ⟨rfl, rfl⟩
  · exact Keyed.keys_erase store.cache.recent.slots key
  · rw [Bool.or_eq_true, Archive.answer_removeAmid]
    rfl
  · rw [archive_removed]
    exact store.cache.archive.saved_removeAmid hazard store.disk indexed

/-- Every clearing of both tiers takes effect, whatever is on the disk and whatever goes wrong. -/
theorem empties_clear (hazard : Hazard) (store : Store) :
    store.Empties hazard (store.clearAmid hazard false).1 (store.clearAmid hazard false).2 := by
  have absent : ∀ key, (store.clearAmid hazard false).2.cache.archive.contains key = false := fun key => rfl
  exact ⟨rfl, ⟨rfl, rfl⟩,
    fun key nonempty => onlyMisses_of_absent (by simpa using nonempty) rfl (absent key),
    store.cache.archive.unfiled_clearAmid hazard store.disk,
    ⟨_, rfl, store.cache.archive.saved_clearAmid hazard store.disk⟩,
    fun read key => unlisted_of_read read (absent key)⟩

/-- On any disk and amid any hazard a removal and a clearing of both tiers take effect in memory, file nothing,
and last as far as the index could be written. A clearing of tier 1 alone leaves tier 2 as it is, and counts
nothing for it. -/
theorem removals_take_effect (hazard : Hazard) (store : Store) :
    (∀ key, key ≠ "" →
      ∃ answer after, store.removeAmid hazard key = .ok (answer, after) ∧
        store.Removes hazard key answer after) ∧
    store.Empties hazard (store.clearAmid hazard false).1 (store.clearAmid hazard false).2 ∧
    store.EmptiesRecent (store.clearAmid hazard true).1 (store.clearAmid hazard true).2 ∧
    -- Where nothing goes wrong, these are the removals and clearings of the cache.
    (∀ key, store.removeAmid {} key = store.remove key) ∧
    ∀ recentOnly, store.clearAmid {} recentOnly = store.clear recentOnly :=
  ⟨fun _ => store.removes_remove hazard, store.empties_clear hazard, ⟨rfl, rfl, rfl, rfl⟩,
    store.removeAmid_calm, store.clearAmid_calm⟩

/-- A clearing of tier 1 alone does not tell how many keys tier 2 has. -/
theorem clear_recent_counts_crowded :
    (crowded.clear true).1 ≠ ⟨crowded.cache.recent.size, crowded.cache.archive.size⟩ := by decide +kernel

/-- A record that cannot be deleted keeps no removal from taking effect. It stays on the disk, and it is not
listed later. -/
theorem removals_take_effect_undeletable :
    let hazard : Hazard := { kept := [recordName "k"] }
    "k" ≠ "" ∧ ∃ after, crowded.removeAmid hazard "k" = .ok (true, after) ∧
      crowded.Removes hazard "k" true after ∧ after.notices = [.undeletedRecord] ∧
      (after.disk.node? (Archive.recordAt ["cache"] "k")).isSome = true ∧ after.Unlisted "k" := by
  intro hazard
  obtain ⟨answer, after, removes, takes⟩ := (removals_take_effect hazard crowded).1 "k" (by decide)
  have indexed : crowded.cache.archive.contains "k" = true := by decide +kernel
  obtain rfl : answer = true := takes.answer_iff.2 (.inr (.inl indexed))
  obtain rfl : crowded.removed hazard "k" = after := by
    rw [crowded.removeAmid_eq hazard rfl] at removes
    exact (Prod.mk.inj (Except.ok.inj removes)).2
  have notices : (crowded.removed hazard "k").notices = [.undeletedRecord] := by decide +kernel
  have stays : ((crowded.removed hazard "k").disk.node? (Archive.recordAt ["cache"] "k")).isSome = true := by
    decide +kernel
  obtain ⟨noted, all, saved⟩ := takes.saved
  have none : crowded.notices = [] := by decide +kernel
  rw [notices, none, List.nil_append] at all
  refine ⟨by decide, _, removes, takes, notices, stays, takes.unlisted ((saved indexed).1 ?_)⟩
  rw [← all]
  decide

end Store

end TieredCache
