import TieredCache.Proofs.Lookup.Abreast
import TieredCache.Proofs.Lookup.Amid
import TieredCache.Proofs.Lookup.Overlapped

/-!
# Tier 1 does not depend on the disk

Stores with the same front answer a put, and a lookup of a resident key, alike and leave the same front:
their disks and archives may differ in every way, and every write of a spill may fail on either. A spill whose
record cannot be written leaves tier 2 as it was, and what set it off goes through.
-/

namespace TieredCache.Store

variable {left right : Store}

/-! ## From above the archive to the front -/

/-- The front of a cache. The archive has no part in it. -/
def Front.ofCache (cache : Cache) : Front where
  recent := cache.recent.timeless
  autoHydrate := cache.autoHydrate
  resolving := cache.resolving
  describer := cache.describer

/-- Puts that leave the same above the archive leave the same front. -/
theorem ofPut_of_abovePut {first second : Except Fault (Entry × Store)}
    (same : first.map abovePut = second.map abovePut) : first.map Front.ofPut = second.map Front.ofPut := by
  let front : Entry × Cache → Entry × Front := Prod.map id Front.ofCache
  have seen (result : Except Fault (Entry × Store)) :
      (result.map abovePut).map front = result.map Front.ofPut := (comp_map abovePut front result).symm
  rw [← seen first, ← seen second, same]

/-- Lookups that leave the same above the archive leave the same front. -/
theorem ofGet_of_aboveGet {σ : Type} {first second : Except Fault (Option Entry × Store × σ)}
    (same : first.map aboveGet = second.map aboveGet) : first.map Front.ofGet = second.map Front.ofGet := by
  let front : Option Entry × Cache × σ → Option Entry × Front × σ :=
    Prod.map (Option.map Entry.timeless) (Prod.map Front.ofCache id)
  have seen (result : Except Fault (Option Entry × Store × σ)) :
      (result.map aboveGet).map front = result.map Front.ofGet := (comp_map aboveGet front result).symm
  rw [← seen first, ← seen second, same]

/-- Neither the disk nor the archive has a part in the front of a store. -/
theorem front_elsewhere (store : Store) (disk : Disk) (archive : Archive) (notices : List Notice) :
    front ⟨disk, { store.cache with archive }, notices⟩ = store.front := rfl

/-! ## Independence -/

/-- On stores with the same front, a put and a lookup of a resident key give the same answers and leave the
same front, whatever goes wrong with the writes of a spill on either, and whatever the clocks say. On one
store, what goes wrong with them does not show above the archive. A spill whose record cannot be written
leaves the cache as it was, with its index, and the file of the index and every record too; a put or a
promotion that sets off such spills alone goes through and leaves tier 2 as it was. -/
theorem front_independent (same : left.front = right.front) :
    (∀ (hazards others : List Hazard) (entry : Entry),
      (left.putEntryAmid hazards entry).map Front.ofPut =
        (right.putEntryAmid others entry).map Front.ofPut) ∧
    (∀ (σ : Type) (hazards others : List Hazard) (resolve : Resolver σ) (state : σ) (request : Request)
      (now later : Moment), left.cache.recent.contains request.key = true →
      (left.getAmid hazards resolve state request now).map Front.ofGet =
        (right.getAmid others resolve state request later).map Front.ofGet) ∧
    (∀ (hazards : List Hazard) (entry : Entry),
      (left.putEntryAmid hazards entry).map abovePut = (left.putEntry entry).map abovePut) ∧
    (∀ (σ : Type) (hazards : List Hazard) (resolve : Resolver σ) (state : σ) (request : Request)
      (now : Moment), (left.getAmid hazards resolve state request now).map aboveGet =
        (left.get resolve state request now).map aboveGet) ∧
    (∀ (hazard : Hazard) (key : String) (entry : Entry),
      left.cache.archive.Refuses left.disk hazard key entry →
      (left.spillAmid hazard key entry).cache = left.cache ∧
        (left.spillAmid hazard key entry).notices = left.notices ++ [.failedSpill] ∧
        left.Spared (left.spillAmid hazard key entry)) ∧
    (∀ (hazards : List Hazard) (entry : Entry), entry.key.isEmpty = false →
      left.cache.archive.Foiled hazards left.disk (left.cache.recent.leaving entry.key) →
      ∃ after, left.putEntryAmid hazards entry = .ok (described left.cache entry, after) ∧
        after.cache.recent.slots.get? entry.key =
          some ((described left.cache entry).stamped left.cache.recent.nextStamp) ∧
        left.Spared after) ∧
    ∀ (σ : Type) (hazards : List Hazard) (resolve : Resolver σ) (state : σ) (request : Request)
      (now : Moment) (entry : Entry), request.key.isEmpty = false →
      left.cache.recent.contains request.key = false →
      left.cache.archive.inspect left.disk request.key = .sound entry →
      left.cache.archive.Foiled hazards left.disk (left.cache.recent.leaving request.key) →
      ∃ given after next, left.getAmid hazards resolve state request now = .ok (some given, after, next) ∧
        after.cache.recent.slots.get? request.key = some given ∧ left.Spared after := by
  refine ⟨fun hazards others entry => ?_, fun σ hazards others resolve state request now later resident => ?_,
    fun hazards entry => above_putEntryAmid hazards left entry,
    fun σ hazards resolve state request now => above_getAmid hazards left resolve state request now,
    fun hazard key entry refuses => spillAmid_of_refuses refuses,
    fun hazards entry nonempty foiled => putEntryAmid_foiled nonempty foiled,
    fun σ hazards resolve state request now entry nonempty absent sound foiled =>
      getAmid_foiled nonempty absent sound foiled resolve state now⟩
  · calc (left.putEntryAmid hazards entry).map Front.ofPut
        = (left.putEntry entry).map Front.ofPut := ofPut_of_abovePut (above_putEntryAmid hazards left entry)
      _ = (right.putEntry entry).map Front.ofPut := front_putEntry same entry
      _ = (right.putEntryAmid others entry).map Front.ofPut :=
        (ofPut_of_abovePut (above_putEntryAmid others right entry)).symm
  · calc (left.getAmid hazards resolve state request now).map Front.ofGet
        = (left.get resolve state request now).map Front.ofGet :=
          ofGet_of_aboveGet (above_getAmid hazards left resolve state request now)
      _ = (right.get resolve state request later).map Front.ofGet :=
          front_get same resolve state resident now later
      _ = (right.getAmid others resolve state request later).map Front.ofGet :=
          (ofGet_of_aboveGet (above_getAmid others right resolve state request later)).symm

/-- The crowded store with another archive, of which a plain file has taken the place of the records, and
of which there is no index. -/
def obstructed : Store where
  disk := ⟨[(["other"], .folder), (["other", "records"], .file [])]⟩
  cache := { crowded.cache with archive := ⟨["other"], []⟩ }
  notices := []

/-- "x" is read on a store that keeps its records and on one that cannot, and is evicted from both. On the
first, "k" is promoted although the write of the record of "x" breaks off and its temporary file stays. -/
theorem front_independent_obstructed :
    let entry := Entry.new "y" ["p"] .epoch
    let held := Entry.new "x" [] .epoch
    let broken : List Hazard := [{ record := some ⟨some 3, true⟩ }]
    obstructed.front = crowded.front ∧
      (obstructed.putEntryAmid [] entry).map Front.ofPut = (crowded.putEntryAmid broken entry).map Front.ofPut ∧
      obstructed.cache.recent.contains "x" = true ∧
      (obstructed.getAmid [] silent () ⟨"x", none, none⟩ .epoch).map Front.ofGet =
        (crowded.getAmid broken silent () ⟨"x", none, none⟩ ⟨1, 0, by decide, by decide⟩).map Front.ofGet ∧
      obstructed.cache.archive.Refuses obstructed.disk {} "x" held ∧
      obstructed.Spared (obstructed.spillAmid {} "x" held) ∧
      obstructed.cache.archive.Foiled [] obstructed.disk (obstructed.cache.recent.leaving "y") ∧
      (∃ after, obstructed.putEntryAmid [] entry = .ok (entry, after) ∧ obstructed.Spared after) ∧
      crowded.cache.recent.contains "k" = false ∧
      crowded.cache.archive.Foiled broken crowded.disk (crowded.cache.recent.leaving "k") ∧
      ∃ given after next, crowded.getAmid broken silent () ⟨"k", none, none⟩ .epoch =
          .ok (some given, after, next) ∧
        after.cache.recent.slots.get? "k" = some given ∧ crowded.Spared after := by
  intro entry held broken
  have fronts : obstructed.front = crowded.front := front_elsewhere crowded _ _ _
  obtain ⟨puts, gets, _, _, refused, foiled_put, _⟩ := front_independent fronts
  obtain ⟨_, _, _, _, _, _, foiled_get⟩ := front_independent fronts.symm
  have resident : obstructed.cache.recent.contains "x" = true := by decide +kernel
  have refuses : obstructed.cache.archive.Refuses obstructed.disk {} "x" held := by decide +kernel
  have foiled : obstructed.cache.archive.Foiled [] obstructed.disk (obstructed.cache.recent.leaving "y") := by
    decide +kernel
  have absent : crowded.cache.recent.contains "k" = false := by decide +kernel
  have broken_off : crowded.cache.archive.Foiled broken crowded.disk (crowded.cache.recent.leaving "k") := by
    decide +kernel
  have indexed : (crowded.cache.archive.inspect crowded.disk "k").found?.isSome = true := by decide +kernel
  obtain ⟨found, finds⟩ := Option.isSome_iff_exists.1 indexed
  have sound : crowded.cache.archive.inspect crowded.disk "k" = .sound found := by
    generalize crowded.cache.archive.inspect crowded.disk "k" = verdict at finds
    cases verdict <;> cases finds
    rfl
  obtain ⟨after, put, _, spared⟩ := foiled_put [] entry rfl foiled
  exact ⟨fronts, puts [] broken entry, resident,
    gets Unit [] broken silent () ⟨"x", none, none⟩ .epoch ⟨1, 0, by decide, by decide⟩ resident, refuses,
    (refused {} "x" held refuses).2.2, foiled, ⟨after, put, spared⟩, absent, broken_off,
    foiled_get Unit broken silent () ⟨"k", none, none⟩ .epoch found rfl absent sound broken_off⟩

end TieredCache.Store
