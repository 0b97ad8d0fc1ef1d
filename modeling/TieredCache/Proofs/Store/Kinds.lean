import TieredCache.Proofs.Archive.Sources
import TieredCache.Proofs.Store.Operations

/-!
# Entries of one kind

A kind of entries that reads, hydrations and records keep. If all entries that a store holds are of the kind,
they stay so through every operation, and so do those that are found of the keys that are vouched for. A key is
vouched for once it has left tier 1, since its record was written or dropped then. This needs that no spill has
failed; notices are never taken back, so it is enough to look at those that there are in the end.
-/

namespace TieredCache

open Archive

/-- A kind of entries that reads, hydrations and records keep. -/
structure Entry.Hereditary (kind : Entry → Prop) : Prop where
  touch : ∀ {entry : Entry} (now : Moment), kind entry → kind (entry.touch now)
  stored : ∀ {entry later : Entry}, later.stored = entry.stored → kind entry → kind later
  reread : ∀ {entry later : Entry}, Entry.readOwn? entry.key entry.record = some later →
    kind entry → kind later

namespace Store

/-- Whatever tier 2 has of a key is of a kind. -/
def Vouched (kind : Entry → Prop) (store : Store) (key : String) : Prop :=
  ∀ entry, store.cache.archive.inspect store.disk key = .sound entry → kind entry

/-- Every record that was to be written has been written: no spill has failed. -/
def Unfailed (store : Store) : Prop := .failedSpill ∉ store.notices

instance (store : Store) : Decidable store.Unfailed := inferInstanceAs (Decidable (_ ∉ _))

/-- The entries that a store has in memory are of a kind. -/
structure Holds (kind : Entry → Prop) (store : Store) : Prop where
  slots : ∀ pair ∈ store.cache.recent.slots, pair.2.key = pair.1 ∧ kind pair.2
  flights : ∀ key entry, store.cache.flights.get? key = some (.landed entry) →
    entry.key = key ∧ kind entry

/-- What an operation leaves. Keys that were vouched for still are, and those that have left tier 1 are now. -/
structure Passes (kind : Entry → Prop) (before after : Store) : Prop where
  holds : after.Holds kind
  describer : after.cache.describer = before.cache.describer
  stays : ∀ key, Vouched kind before key → Vouched kind after key
  leaves : ∀ key, key ∈ before.cache.recent.keys → key ∉ after.cache.recent.keys →
    Vouched kind after key

variable {kind : Entry → Prop} {store before after : Store} {key : String}

/-- A key that is not indexed is vouched for. -/
theorem vouched_of_unindexed (absent : store.cache.archive.index.get? key = none) :
    Vouched kind store key := by
  intro entry sound
  obtain ⟨name, _, indexed, _⟩ := inspect_eq_sound_iff.1 sound
  rw [absent] at indexed
  cases indexed

theorem Passes.refl (holds : store.Holds kind) : Passes kind store store :=
  ⟨holds, rfl, fun _ vouched => vouched, fun _ here gone => absurd here gone⟩

theorem Passes.trans {first second third : Store} (left : Passes kind first second)
    (right : Passes kind second third) : Passes kind first third := by
  refine ⟨right.holds, right.describer.trans left.describer,
    fun key vouched => right.stays key (left.stays key vouched), fun key here gone => ?_⟩
  by_cases between : key ∈ second.cache.recent.keys
  · exact right.leaves key between gone
  · exact right.stays key (left.leaves key here between)

/-- Every key that is not in tier 1 stays vouched for. -/
theorem Passes.vouched (passes : Passes kind before after)
    (vouched : ∀ key, key ∉ before.cache.recent.keys → Vouched kind before key)
    (gone : key ∉ after.cache.recent.keys) : Vouched kind after key := by
  by_cases here : key ∈ before.cache.recent.keys
  · exact passes.leaves key here gone
  · exact passes.stays key (vouched key here)

/-! ## Failed spills -/

/-- Where no spill has failed in the end, none had failed before. -/
theorem Unfailed.earlier (unfailed : after.Unfailed) (notices : before.notices <+: after.notices) :
    before.Unfailed :=
  fun failed => unfailed (notices.subset failed)

theorem notices_spillAll (store : Store) (evicted : Keyed Entry) :
    store.notices <+: (store.spillAll evicted).notices := by
  induction evicted generalizing store with
  | nil => exact List.prefix_rfl
  | cons pair evicted induction =>
      obtain ⟨key, entry⟩ := pair
      exact (List.prefix_append _ _).trans
        (induction (store.carryOut (store.cache.archive.spill store.disk key entry)))

theorem notices_offer (store : Store) (key : String) (entry : Entry) (now : Moment) :
    store.notices <+: (store.offer key entry now).2.notices := notices_spillAll store _

theorem notices_written (store : Store) (entry : Entry) :
    store.notices <+: (store.written entry).notices := notices_spillAll store _

/-! ## Parts of operations -/

theorem Holds.alike (holds : before.Holds kind) (alike : Alike before after) :
    Passes kind before after := by
  refine ⟨⟨?_, ?_⟩, congrArg Setup.describer alike.setup, fun key vouched => ?_,
    fun key here gone => ?_⟩
  · rw [alike.slots]
    exact holds.slots
  · rw [alike.flights]
    exact holds.flights
  · rw [Vouched, alike.archive, alike.disk]
    exact vouched
  · rw [Recent.keys, alike.slots] at gone
    exact absurd here gone

theorem Holds.withFlights (holds : store.Holds kind) {flights : Flights}
    (good : ∀ key entry, flights.get? key = some (.landed entry) → entry.key = key ∧ kind entry) :
    Passes kind store (store.withFlights flights) :=
  ⟨⟨holds.slots, good⟩, rfl, fun _ vouched => vouched,
    fun _ here gone => absurd here gone⟩

/-- A flight that is taken or that lands leaves the others. -/
theorem Holds.put_flight (holds : store.Holds kind) (key : String) {flight : Flight}
    (good : ∀ entry, flight = .landed entry → entry.key = key ∧ kind entry) :
    Passes kind store (store.withFlights (store.cache.flights.put key flight)) := by
  refine holds.withFlights fun asked entry found => ?_
  rw [Keyed.get?_put] at found
  split at found
  · rename_i same
    rw [same]
    exact good entry (Option.some.inj found)
  · exact holds.flights asked entry found

/-- A flight that is retired leaves the others. -/
theorem Holds.retire (holds : store.Holds kind) (key : String) :
    Passes kind store (store.withFlights (store.cache.flights.retire key)) := by
  refine holds.withFlights fun asked entry found => ?_
  unfold Flights.retire at found
  split at found
  · exact holds.flights asked entry (Keyed.of_get?_erase found)
  · exact holds.flights asked entry found

/-- Slots are changed, and no key leaves. -/
theorem Holds.withRecent (holds : store.Holds kind) {recent : Recent}
    (slots : ∀ pair ∈ recent.slots, pair.2.key = pair.1 ∧ kind pair.2)
    (keys : ∀ key ∈ store.cache.recent.keys, key ∈ recent.keys) :
    Passes kind store (store.withRecent recent) :=
  ⟨⟨slots, holds.flights⟩, rfl, fun _ vouched => vouched,
    fun key here gone => absurd (keys key here) gone⟩

/-- An operation that adds nothing to the archive. -/
theorem Holds.carryOut (holds : store.Holds kind) {α : Type} {outcome : Outcome α}
    (adds : outcome.AddsNothing store.cache.archive store.disk) :
    Passes kind store (store.carryOut outcome) :=
  ⟨⟨holds.slots, holds.flights⟩, rfl,
    fun key vouched entry sound => vouched entry (adds key entry sound),
    fun _ here gone => absurd here gone⟩

/-- What is spilled is vouched for. -/
theorem Holds.spillAll (hereditary : Entry.Hereditary kind) (holds : store.Holds kind)
    {evicted : Keyed Entry} (good : ∀ pair ∈ evicted, pair.2.key = pair.1 ∧ kind pair.2)
    (unfailed : (store.spillAll evicted).Unfailed) : Passes kind store (store.spillAll evicted) ∧
      ∀ key ∈ evicted.keys, Vouched kind (store.spillAll evicted) key := by
  induction evicted generalizing store with
  | nil => exact ⟨.refl holds, by simp [Keyed.keys]⟩
  | cons pair evicted induction =>
      obtain ⟨key, entry⟩ := pair
      obtain ⟨⟨own, good_entry⟩, good_later⟩ := List.forall_mem_cons.1 good
      simp only at own good_entry
      subst own
      have kept : .failedSpill ∉ (store.cache.archive.spill store.disk entry.key entry).notices := by
        have before := unfailed.earlier (notices_spillAll _ evicted)
        exact fun failed => before (List.mem_append_right _ failed)
      have here : Vouched kind
          (store.carryOut (store.cache.archive.spill store.disk entry.key entry)) entry.key := by
        intro later sound
        have read := sound_spill kept sound
        rw [if_pos rfl] at read
        exact hereditary.reread read good_entry
      have spilled : Passes kind store
          (store.carryOut (store.cache.archive.spill store.disk entry.key entry)) := by
        refine ⟨⟨holds.slots, holds.flights⟩, rfl, fun key vouched => ?_,
          fun _ here gone => absurd here gone⟩
        by_cases same : key = entry.key
        · rw [same]
          exact here
        · intro later sound
          have before := sound_spill kept sound
          rw [if_neg same] at before
          exact vouched later before
      obtain ⟨passes, vouched⟩ := induction spilled.holds good_later unfailed
      refine ⟨spilled.trans passes, fun asked among => ?_⟩
      rcases List.mem_cons.1 among with rfl | later
      · exact passes.stays _ here
      · exact vouched asked later

/-- A key gets its first slot, and what has to leave tier 1 for it is vouched for. -/
theorem Holds.insert (hereditary : Entry.Hereditary kind) (holds : store.Holds kind)
    {recent : Recent} (same_slots : recent.slots = store.cache.recent.slots) {entry : Entry}
    (good : kind entry) (unfailed : (store.spillAll (recent.insert entry.key entry).1).Unfailed) :
    Passes kind store ((store.spillAll (recent.insert entry.key entry).1).withRecent
      (recent.insert entry.key entry).2) := by
  have slots := holds.slots
  rw [← same_slots] at slots
  have evicted : ∀ pair ∈ (recent.insert entry.key entry).1, pair.2.key = pair.1 ∧ kind pair.2 :=
    fun pair among => slots pair (List.mem_of_mem_take among)
  have kept : ∀ pair ∈ (recent.insert entry.key entry).2.slots, pair.2.key = pair.1 ∧ kind pair.2 := by
    intro pair among
    rcases List.mem_append.1 among with old | new
    · exact slots pair (List.mem_of_mem_drop old)
    · obtain rfl := List.mem_singleton.1 new
      exact ⟨rfl, good⟩
  obtain ⟨spilled, vouched⟩ := holds.spillAll hereditary evicted unfailed
  refine ⟨⟨kept, spilled.holds.flights⟩, spilled.describer, spilled.stays,
    fun asked here gone => vouched asked ?_⟩
  rw [Recent.keys, ← same_slots, ← List.take_append_drop recent.excess recent.slots, Keyed.keys,
    List.map_append, List.mem_append] at here
  rcases here with leaves | stays
  · exact leaves
  · refine absurd ?_ gone
    rw [Store.withRecent, Recent.keys, Recent.insert, Keyed.keys, List.map_append]
    exact List.mem_append_left _ stays

/-- The slot of a key is filled, and the other slots stay. -/
theorem Holds.put_slot {recent : Recent} {entry : Entry}
    (flights : ∀ key entry, store.cache.flights.get? key = some (.landed entry) →
      entry.key = key ∧ kind entry)
    (others : ∀ pair ∈ store.cache.recent.slots, pair.1 ≠ key → pair.2.key = pair.1 ∧ kind pair.2)
    (slots : recent.slots = store.cache.recent.slots.put key entry) (own : entry.key = key)
    (good : kind entry) : Passes kind store (store.withRecent recent) := by
  have filled : ∀ pair ∈ recent.slots, pair.2.key = pair.1 ∧ kind pair.2 := by
    intro pair among
    rw [slots, Keyed.put, List.mem_append] at among
    rcases among with old | new
    · obtain ⟨among, differs⟩ := List.mem_filter.1 old
      exact others pair among (by simpa using differs)
    · obtain rfl := List.mem_singleton.1 new
      exact ⟨own, good⟩
  refine ⟨⟨filled, flights⟩, rfl, fun _ vouched => vouched, fun asked here gone => ?_⟩
  rw [Store.withRecent, Recent.keys, slots, Keyed.keys_put] at gone
  refine absurd ?_ gone
  by_cases same : asked = key
  · simp [same]
  · exact List.mem_append_left _ (List.mem_filter.2 ⟨here, by simpa using same⟩)

/-! ## Operations -/

/-- A written entry is in tier 1, whatever was there of its key. -/
theorem passes_written (hereditary : Entry.Hereditary kind)
    (flights : ∀ key entry, store.cache.flights.get? key = some (.landed entry) →
      entry.key = key ∧ kind entry)
    {entry : Entry} (others : ∀ pair ∈ store.cache.recent.slots, pair.1 ≠ entry.key →
      pair.2.key = pair.1 ∧ kind pair.2) (good : kind entry) (unfailed : (store.written entry).Unfailed) :
    Passes kind store (store.written entry) ∧
      entry.key ∈ (store.written entry).cache.recent.keys := by
  have stamped := hereditary.stored (show (entry.stamped store.cache.recent.nextStamp).stored =
    entry.stored from rfl) good
  unfold written at unfailed ⊢
  cases resident : store.cache.recent.slots.has entry.key with
  | true =>
      rw [Recent.write_resident resident]
      refine ⟨Holds.put_slot flights others rfl rfl stamped, ?_⟩
      simp [Store.withRecent, Recent.keys, Keyed.keys_put]
  | false =>
      have absent : entry.key ∉ store.cache.recent.slots.keys := by
        rw [← Keyed.has_iff_mem_keys, resident]
        exact Bool.false_ne_true
      have slots : ∀ pair ∈ store.cache.recent.slots, pair.2.key = pair.1 ∧ kind pair.2 := by
        intro pair among
        refine others pair among fun same => absent ?_
        rw [← same]
        exact Keyed.mem_keys_of_mem among
      have holds : store.Holds kind := ⟨slots, flights⟩
      rw [Recent.write_absent resident] at unfailed ⊢
      constructor
      · exact @Holds.insert _ _ hereditary holds store.cache.recent.advanced rfl
          (entry.stamped store.cache.recent.nextStamp) stamped unfailed
      · simp [Store.withRecent, Recent.keys, Recent.insert, Keyed.keys]

/-- An offered entry comes to its slot unless there is one, and what is then there is of the kind. -/
theorem Holds.offer (hereditary : Entry.Hereditary kind) (holds : store.Holds kind) {entry : Entry}
    (good : kind entry) (now : Moment) (unfailed : (store.offer entry.key entry now).2.Unfailed) :
    Passes kind store (store.offer entry.key entry now).2 ∧
      (store.offer entry.key entry now).1.key = entry.key ∧ kind (store.offer entry.key entry now).1 := by
  unfold Store.offer at unfailed ⊢
  cases resident : store.cache.recent.slots.get? entry.key with
  | some held =>
      obtain ⟨own, good_held⟩ := holds.slots _ (Keyed.mem_of_get? resident)
      have touched := hereditary.touch now good_held
      rw [Recent.offer_resident resident]
      exact ⟨Holds.put_slot holds.flights (fun pair among _ => holds.slots pair among)
        rfl own touched, own, touched⟩
  | none =>
      have stamped := hereditary.stored (show (entry.stamped store.cache.recent.nextStamp).stored =
        entry.stored from rfl) good
      rw [Recent.offer_absent resident] at unfailed ⊢
      exact ⟨@Holds.insert _ _ hereditary holds store.cache.recent.advanced rfl
        (entry.stamped store.cache.recent.nextStamp) stamped unfailed, rfl, stamped⟩

/-- A removed key is vouched for, whatever there was of it. -/
theorem passes_removed
    (flights : ∀ key entry, store.cache.flights.get? key = some (.landed entry) →
      entry.key = key ∧ kind entry)
    (others : ∀ pair ∈ store.cache.recent.slots, pair.1 ≠ key → pair.2.key = pair.1 ∧ kind pair.2)
    (nonempty : key.isEmpty = false) :
    ∃ held after, store.remove key = .ok (held, after) ∧ after.cache.flights = store.cache.flights ∧
      Passes kind store after ∧ Vouched kind after key := by
  obtain ⟨adds, dropped⟩ := addsNothing_remove store.cache.archive store.disk key
  have removed : store.remove key =
      .ok ((store.cache.recent.erase key).1.isSome || (store.cache.archive.remove store.disk key).answer,
        (store.withRecent (store.cache.recent.erase key).2).carryOut
          (store.cache.archive.remove store.disk key)) := by
    simp only [Store.remove, Fault.checkKey, nonempty]
    rfl
  have erased : ∀ pair ∈ store.cache.recent.slots.erase key, pair.2.key = pair.1 ∧ kind pair.2 := by
    intro pair among
    obtain ⟨here, differs⟩ := List.mem_filter.1 among
    exact others pair here (by simpa using differs)
  have vouched : Vouched kind ((store.withRecent (store.cache.recent.erase key).2).carryOut
      (store.cache.archive.remove store.disk key)) key := vouched_of_unindexed dropped
  refine ⟨_, _, removed, rfl, ⟨⟨erased, flights⟩, rfl,
    fun other held entry sound => held entry (adds other entry sound), fun asked here left => ?_⟩,
    vouched⟩
  have same : asked = key := by
    refine Decidable.byContradiction fun differs => left ?_
    change asked ∈ (store.cache.recent.slots.erase key).keys
    rw [Keyed.keys_erase]
    exact List.mem_filter.2 ⟨here, by simpa using differs⟩
  rw [same]
  exact vouched

/-- A clearing of both tiers vouches for every key. -/
theorem passes_cleared
    (flights : ∀ key entry, store.cache.flights.get? key = some (.landed entry) →
      entry.key = key ∧ kind entry) :
    Passes kind store (store.clear false).2 ∧
      ∀ key, Vouched kind (store.clear false).2 key := by
  have adds := addsNothing_clear store.cache.archive store.disk
  have vouched : ∀ key, Vouched kind (store.clear false).2 key := fun _ => vouched_of_unindexed rfl
  exact ⟨⟨⟨by rintro pair ⟨⟩, flights⟩, rfl,
    fun key held entry sound => held entry (adds key entry sound), fun asked _ _ => vouched asked⟩,
    vouched⟩

/-- A clearing of tier 1 alone keeps what tier 2 has, so it needs that the keys of tier 1 are vouched for. -/
theorem Holds.clearRecent (holds : store.Holds kind)
    (sheltered : ∀ key ∈ store.cache.recent.keys, Vouched kind store key) :
    Passes kind store (store.clear true).2 :=
  ⟨⟨by rintro pair ⟨⟩, holds.flights⟩, rfl, fun _ vouched => vouched,
    fun asked here _ => sheltered asked here⟩

/-- When the index is made anew, a key stays vouched for unless it gets another name. -/
theorem Vouched.rebuildIndex (vouched : Vouched kind store key)
    (named : ∀ name, store.rebuildIndex.2.cache.archive.index.get? key = some name →
      store.cache.archive.index.get? key = some name) : Vouched kind store.rebuildIndex.2 key :=
  fun entry sound => vouched entry (sound_rebuild named sound)

end Store

end TieredCache
