import TieredCache.Proofs.Lookup.Local

/-!
# What a lookup does in front of tier 2

Whatever state tier 2 is in, a step of a lookup changes the slot and the flight of its key as
`Lookup.stepOn` says, goes on as it says unless it looks at a record, and counts at most one ending.
-/

namespace TieredCache

/-! ## Evictions -/

namespace Archive

/-- A spill changes the index for its own key alone. -/
theorem spill_frame (archive : Archive) (disk : Disk) (key : String) (entry : Entry) :
    (archive.spill disk key entry).archive.root = archive.root ∧ ∀ other, other ≠ key →
      (archive.spill disk key entry).archive.index.get? other = archive.index.get? other := by
  cases written : disk.replacement archive.records (recordName key) entry.record with
  | error refusal =>
      simp only [spill, written]
      exact ⟨trivial, fun other _ => trivial⟩
  | ok effects =>
      simp only [spill, written]
      refine ⟨trivial, fun other differs => ?_⟩
      rw [Keyed.get?_put, if_neg differs]

theorem root_settle (archive : Archive) (disk : Disk) (key : String) (verdict : Verdict) :
    (archive.settle disk key verdict).archive.root = archive.root := by
  have forgotten : ∀ disk, (archive.forget disk key).archive.root = archive.root := by
    intro disk
    unfold forget
    split <;> rfl
  cases verdict with
  | missing => exact forgotten disk
  | corrupt name => exact forgotten _
  | _ => rfl

end Archive

namespace Store

/-- Evictions change the archive and nothing else of the cache, and leave the index as it is for every
key that stays. -/
theorem spillAll_frame (store : Store) (evicted : Keyed Entry) :
    (store.spillAll evicted).cache =
        { store.cache with archive := (store.spillAll evicted).cache.archive } ∧
      (store.spillAll evicted).cache.archive.root = store.cache.archive.root ∧
      ∀ key, key ∉ evicted.keys → (store.spillAll evicted).cache.archive.index.get? key =
        store.cache.archive.index.get? key := by
  induction evicted generalizing store with
  | nil => exact ⟨rfl, rfl, fun key _ => rfl⟩
  | cons pair evicted induction =>
      obtain ⟨key, entry⟩ := pair
      obtain ⟨root, index⟩ := store.cache.archive.spill_frame store.disk key entry
      obtain ⟨cache, later_root, later⟩ :=
        induction (store.carryOut (store.cache.archive.spill store.disk key entry))
      refine ⟨cache, later_root.trans root, fun asked stays => ?_⟩
      rw [Keyed.keys, List.map_cons, List.mem_cons, not_or] at stays
      exact (later asked stays.2).trans (index asked stays.1)

end Store

/-- An entry that is inserted is there once, and was not evicted. -/
theorem Recent.insert_frame {recent : Recent} {key : String}
    (absent : recent.slots.get? key = none) (entry : Entry) :
    key ∉ (recent.insert key entry).1.keys ∧
      (recent.insert key entry).2.slots.get? key = some entry ∧
      (recent.insert key entry).2.keys.count key = 1 := by
  have not_held : key ∉ recent.slots.keys := Keyed.get?_eq_none_iff.1 absent
  have not_evicted : key ∉ Keyed.keys (recent.slots.take recent.excess) := by
    intro found
    obtain ⟨pair, among, rfl⟩ := List.mem_map.1 found
    exact not_held (Keyed.mem_keys_of_mem (List.mem_of_mem_take among))
  have not_kept : key ∉ Keyed.keys (recent.slots.drop recent.excess) := by
    intro found
    obtain ⟨pair, among, rfl⟩ := List.mem_map.1 found
    exact not_held (Keyed.mem_keys_of_mem (List.mem_of_mem_drop among))
  refine ⟨not_evicted, ?_, ?_⟩
  · rw [insert, Keyed.get?_append, Keyed.get?_eq_none_iff.2 not_kept, Option.none_or, Keyed.get?_cons,
      if_pos rfl]
  · rw [Recent.keys, insert, Keyed.keys, List.map_append, ← Keyed.keys, List.count_append,
      List.count_eq_zero.2 not_kept]
    simp

/-- A key that is written holds the entry, with the stamp of the write. -/
theorem Recent.get?_write (recent : Recent) (key : String) (entry : Entry) :
    (recent.write key entry).2.slots.get? key = some (entry.stamped recent.nextStamp) := by
  cases resident : recent.slots.has key with
  | true =>
      rw [Recent.write_resident resident, Keyed.get?_put, if_pos rfl]
  | false =>
      have absent : recent.advanced.slots.get? key = none := Keyed.has_eq_false_iff.1 resident
      rw [Recent.write_absent resident]
      exact (Recent.insert_frame absent _).2.1

/-- An offered entry comes to its slot unless there is one. -/
theorem Store.offer_front (store : Store) (key : String) (entry : Entry) (now : Moment) :
    let offered := (store.share key).offer entry now store.cache.recent.nextStamp
    (store.offer key entry now).1 = offered.1 ∧
      (store.offer key entry now).2.cache.recent.slots.get? key = offered.2.slot ∧
      (store.offer key entry now).2.cache.flights = store.cache.flights ∧
      (store.offer key entry now).2.setup = store.setup ∧
      (store.offer key entry now).2.cache.tally = store.cache.tally := by
  unfold Store.offer Share.offer
  cases resident : store.cache.recent.slots.get? key with
  | some held =>
      have slot : (store.share key).slot = some held := resident
      rw [Recent.offer_resident resident, slot]
      exact ⟨rfl, (Keyed.get?_put _ _ _ _).trans (if_pos rfl), rfl, rfl, rfl⟩
  | none =>
      have slot : (store.share key).slot = none := resident
      rw [Recent.offer_absent resident, slot]
      obtain ⟨_, held, _⟩ := Recent.insert_frame (show store.cache.recent.advanced.slots.get? key = none
        from resident) (entry.stamped store.cache.recent.nextStamp)
      generalize store.cache.recent.advanced.insert key
        (entry.stamped store.cache.recent.nextStamp) = inserted at held ⊢
      obtain ⟨cache, root, _⟩ := store.spillAll_frame inserted.1
      refine ⟨rfl, held, ?_, ?_, ?_⟩
      · simp only [Store.withRecent]
        rw [cache]
      · simp only [Store.setup, Store.withRecent, root]
        rw [cache]
      · simp only [Store.withRecent]
        rw [cache]

/-! ## Steps -/

/-- The ending that a step of a lookup counts. -/
def Lookup.ending? (setup : Store.Setup) (request : Request) (share : Share) : Lookup → Option Ending
  | .begun => share.slot.map fun _ => .recentHit
  | .judged verdict =>
    match verdict.found? with
    | some _ => some .archiveHit
    | none => if request.paths.isSome && setup.resolving then none else some .miss
  | .landing _ => some .rebuild
  | _ => none

namespace Lookup

/-- What a step does in front of tier 2. -/
structure Fronts (request : Request) (store : Store) (lookup : Lookup) (expected : Lookup × Share)
    (after : Lookup × Store) : Prop where
  phase : lookup ≠ .missed → after.1 = expected.1
  slot : after.2.cache.recent.slots.get? request.key = expected.2.slot
  flight : after.2.cache.flights.get? request.key = expected.2.flight
  setup : after.2.setup = store.setup
  tally : after.2.cache.tally =
    (lookup.ending? store.setup request (store.share request.key)).elim store.cache.tally
      store.cache.tally.count

variable {store : Store} {request : Request}

theorem fronts_judged (verdict : Archive.Verdict) (answer : Answer) (now : Moment) :
    Fronts request store (.judged verdict)
      ((Lookup.judged verdict).stepOn store.setup request answer now store.cache.recent.nextStamp
        (store.share request.key))
      ((Lookup.judged verdict).step request answer now store) := by
  have root := Archive.root_settle store.cache.archive store.disk request.key verdict
  have setup : (store.carryOut (store.cache.archive.settle store.disk request.key verdict)).setup =
      store.setup := by
    simp only [Store.setup, Store.carryOut, root]
  have slot : (if verdict.purges then (store.share request.key).withShelf none
      else store.share request.key).slot = store.cache.recent.slots.get? request.key := by
    split <;> rfl
  have flight : (if verdict.purges then (store.share request.key).withShelf none
      else store.share request.key).flight = store.cache.flights.get? request.key := by
    split <;> rfl
  have tally : (store.carryOut (store.cache.archive.settle store.disk request.key verdict)).cache.tally =
      store.cache.tally := rfl
  have slots : (store.carryOut (store.cache.archive.settle store.disk request.key
      verdict)).cache.recent = store.cache.recent := rfl
  have flights : (store.carryOut (store.cache.archive.settle store.disk request.key
      verdict)).cache.flights = store.cache.flights := rfl
  simp only [Lookup.step, Lookup.stepOn, Archive.answer_settle]
  generalize store.carryOut (store.cache.archive.settle store.disk request.key verdict) = middle
    at setup tally slots flights ⊢
  cases found : verdict.found? with
  | some entry =>
      simp only [ofArchive_eq, setup]
      constructor
      · intro _
        rw [afterVerdict, found]
      · exact (congrArg (fun recent => recent.slots.get? request.key) slots).trans slot.symm
      · exact (congrArg (fun flights => Keyed.get? flights request.key) flights).trans flight.symm
      · exact setup
      · simp only [Store.count, tally, ending?, found, Option.elim]
  | none =>
      obtain ⟨lookup, alike⟩ := ofPaths_spec request middle
      simp only
      constructor
      · intro _
        rw [lookup, afterVerdict, found, setup]
      · rw [alike.slots, slots]
        exact slot.symm
      · rw [alike.flights, flights]
        exact flight.symm
      · rw [alike.setup, setup]
      · rw [← setup]
        unfold ofPaths
        simp only [ending?, found]
        cases request.paths with
        | none => simp [Store.count, tally]
        | some paths =>
            cases resolving : middle.cache.resolving with
            | true => simp [Store.setup, resolving, tally]
            | false => simp [Store.setup, resolving, Store.count, Store.note, tally]

theorem fronts_joining (paths : List String) (answer : Answer) (now : Moment) :
    Fronts request store (.joining paths)
      ((Lookup.joining paths).stepOn store.setup request answer now store.cache.recent.nextStamp
        (store.share request.key))
      ((Lookup.joining paths).step request answer now store) := by
  have flight : (store.share request.key).flight = store.cache.flights.get? request.key := rfl
  simp only [Lookup.step, Lookup.stepOn, join, flight]
  cases held : store.cache.flights.get? request.key with
  | none => exact ⟨fun _ => rfl, rfl, (Keyed.get?_put _ _ _ _).trans (if_pos rfl), rfl, rfl⟩
  | some flight => cases flight <;> exact ⟨fun _ => rfl, rfl, rfl, rfl, rfl⟩

theorem fronts_leading (paths : List String) (answer : Answer) (now : Moment) :
    Fronts request store (.leading paths)
      ((Lookup.leading paths).stepOn store.setup request answer now store.cache.recent.nextStamp
        (store.share request.key))
      ((Lookup.leading paths).step request answer now store) := by
  have slot : (store.share request.key).slot = store.cache.recent.slots.get? request.key := rfl
  simp only [Lookup.step, Lookup.stepOn, lead, Recent.fetch, slot]
  cases held : store.cache.recent.slots.get? request.key with
  | none => exact ⟨fun _ => rfl, held.trans (slot.trans held).symm, rfl, rfl, rfl⟩
  | some entry =>
      exact ⟨fun _ => rfl, (Keyed.get?_put _ _ _ _).trans (if_pos rfl),
        (Keyed.get?_put _ _ _ _).trans (if_pos rfl), rfl, rfl⟩

theorem fronts_delivering (aim : Aim) (found : Bool) (copy : Entry) (answer : Answer) (now : Moment) :
    Fronts request store (.hydrating aim (.finished found copy))
      ((Lookup.hydrating aim (.finished found copy)).stepOn store.setup request answer now
        store.cache.recent.nextStamp (store.share request.key))
      ((Lookup.hydrating aim (.finished found copy)).step request answer now store) := by
  have slot : (store.share request.key).slot = store.cache.recent.slots.get? request.key := rfl
  cases aim with
  | refresh =>
      simp only [Lookup.step, Lookup.stepOn, deliver, Recent.adopt, Share.adopt, slot]
      cases held : store.cache.recent.slots.get? request.key with
      | none => exact ⟨fun _ => rfl, held.trans (slot.trans held).symm, rfl, rfl, rfl⟩
      | some entry =>
          simp only
          by_cases same : entry.stamp = copy.stamp
          · rw [if_pos same, if_pos same]
            refine ⟨fun _ => rfl, (Keyed.get?_set _ _ _ _).trans ?_, rfl, rfl, rfl⟩
            rw [if_pos rfl, held]
            rfl
          · rw [if_neg same, if_neg same]
            exact ⟨fun _ => rfl, rfl, rfl, rfl, rfl⟩
  | promote =>
      obtain ⟨given, held, flights, setup, tally⟩ := store.offer_front request.key copy now
      simp only [Lookup.step, Lookup.stepOn, deliver]
      refine ⟨fun _ => by rw [given], held, ?_, setup, tally⟩
      rw [flights, Share.flight_offer]
      rfl
  | seed =>
      obtain ⟨given, held, flights, setup, tally⟩ := store.offer_front request.key (copy.touch now) now
      simp only [Lookup.step, Lookup.stepOn, deliver]
      refine ⟨fun _ => by rw [given], held, ?_, setup, tally⟩
      rw [← given]
      exact (Keyed.get?_put _ _ _ _).trans (if_pos rfl)

theorem fronts_landing (entry : Entry) (answer : Answer) (now : Moment) :
    Fronts request store (.landing entry)
      ((Lookup.landing entry).stepOn store.setup request answer now store.cache.recent.nextStamp
        (store.share request.key))
      ((Lookup.landing entry).step request answer now store) := by
  have retired := withFlight_retire store request.key
  refine ⟨fun _ => rfl, ?_, ?_, rfl, rfl⟩
  · exact congrArg Share.slot retired
  · exact congrArg Share.flight retired

/-- Every step does in front of tier 2 what it does on the share of its key. -/
theorem fronts_step (store : Store) (request : Request) (lookup : Lookup) (answer : Answer)
    (now : Moment) :
    Fronts request store lookup
      (lookup.stepOn store.setup request answer now store.cache.recent.nextStamp
        (store.share request.key))
      (lookup.step request answer now store) := by
  cases lookup with
  | begun =>
      have slot : (store.share request.key).slot = store.cache.recent.slots.get? request.key := rfl
      simp only [Lookup.step, Lookup.stepOn, Recent.fetch, slot]
      cases held : store.cache.recent.slots.get? request.key with
      | none => exact ⟨fun _ => rfl, rfl, rfl, rfl, by simp [ending?, slot, held]⟩
      | some entry =>
          simp only [ofRecent_eq]
          refine ⟨fun _ => rfl, (Keyed.get?_put _ _ _ _).trans (if_pos rfl), rfl, rfl, ?_⟩
          simp only [ending?, slot, held, Option.map_some, Option.elim]
          rfl
  | missed => exact ⟨fun never => absurd rfl never, rfl, rfl, rfl, rfl⟩
  | judged verdict => exact fronts_judged verdict answer now
  | joining paths => exact fronts_joining paths answer now
  | waiting => exact ⟨fun _ => rfl, rfl, rfl, rfl, rfl⟩
  | leading paths => exact fronts_leading paths answer now
  | hydrating aim hydration =>
      cases hydration with
      | running entry pending deadline => cases aim <;> exact ⟨fun _ => rfl, rfl, rfl, rfl, rfl⟩
      | finished found copy => exact fronts_delivering aim found copy answer now
  | landing entry => exact fronts_landing entry answer now
  | done given => exact ⟨fun _ => rfl, rfl, rfl, rfl, rfl⟩

end Lookup

end TieredCache
