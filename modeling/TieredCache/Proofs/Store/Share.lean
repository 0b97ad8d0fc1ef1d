import TieredCache.Proofs.Archive.Upkeep
import TieredCache.Proofs.Recent
import TieredCache.Store

/-!
# What a store has of one key

The share of a key is its slot in tier 1, its shelf in tier 2 and its flight. An operation that is
about one key changes the shares of the others in one way only: their slots are evicted to their
shelves.
-/

namespace TieredCache

/-- What a store has of one key. -/
@[ext]
structure Share where
  /-- The entry that tier 1 holds. -/
  slot : Option Entry
  /-- The record that tier 2 holds. -/
  shelf : Option Bytes
  /-- The making of the entry that callers share. -/
  flight : Option Flight

namespace Share

/-- The share with another slot. -/
def withSlot (share : Share) (slot : Option Entry) : Share := { share with slot }

/-- The share with another shelf. -/
def withShelf (share : Share) (shelf : Option Bytes) : Share := { share with shelf }

/-- The share with another flight. -/
def withFlight (share : Share) (flight : Option Flight) : Share := { share with flight }

@[simp] theorem slot_withShelf (share : Share) (shelf : Option Bytes) :
    (share.withShelf shelf).slot = share.slot := rfl

/-- A share that an operation on other keys leaves: as it was, or with its slot evicted. -/
def Keeps (before after : Share) : Prop :=
  after = before ∨
    ∃ entry, before.slot = some entry ∧
      after = (before.withSlot none).withShelf (some entry.record)

theorem Keeps.refl (share : Share) : share.Keeps share := Or.inl rfl

theorem Keeps.trans {first second third : Share} (left : first.Keeps second)
    (right : second.Keeps third) : first.Keeps third := by
  rcases left with rfl | ⟨entry, slot, rfl⟩
  · exact right
  · rcases right with rfl | ⟨other, evicted, _⟩
    · exact Or.inr ⟨entry, slot, rfl⟩
    · cases evicted

theorem Keeps.flight {before after : Share} (keeps : before.Keeps after) :
    after.flight = before.flight := by
  rcases keeps with rfl | ⟨entry, _, rfl⟩ <;> rfl

end Share

namespace Store

/-- The share of a key. -/
def share (store : Store) (key : String) : Share where
  slot := store.cache.recent.slots.get? key
  shelf := store.cache.archive.shelf store.disk key
  flight := store.cache.flights.get? key

/-- What no operation of a cache changes. -/
structure Setup where
  root : Route
  autoHydrate : Bool
  resolving : Bool
  describer : Option Describer

/-- The setup of the cache of a store. -/
def setup (store : Store) : Setup where
  root := store.cache.archive.root
  autoHydrate := store.cache.autoHydrate
  resolving := store.cache.resolving
  describer := store.cache.describer

/-- The archive is tidy, and every slot holds an entry of its key. -/
structure Tidy (known : String → Prop) (home : Path) (store : Store) : Prop where
  archive : store.cache.archive.Tidy known store.disk home
  distinct : store.cache.recent.slots.keys.Nodup
  own : ∀ key entry, store.cache.recent.slots.get? key = some entry → known key ∧ entry.key = key

/-- A store after an operation that is about one key. -/
structure Moves (known : String → Prop) (home : Path) (key : String) (before after : Store) :
    Prop where
  tidy : after.Tidy known home
  setup : after.setup = before.setup
  elsewhere : ∀ other, other ≠ key → (before.share other).Keeps (after.share other)

variable {known : String → Prop} {home : Path}

theorem Moves.refl {store : Store} (tidy : store.Tidy known home) (key : String) :
    Moves known home key store store :=
  ⟨tidy, rfl, fun _ _ => Share.Keeps.refl _⟩

theorem Moves.trans {key : String} {first second third : Store}
    (left : Moves known home key first second) (right : Moves known home key second third) :
    Moves known home key first third :=
  ⟨right.tidy, right.setup.trans left.setup, fun other differs =>
    (left.elsewhere other differs).trans (right.elsewhere other differs)⟩

/-! ## Changes that are about no entry -/

/-- Stores with the same disk, tiers and flights. -/
structure Alike (before after : Store) : Prop where
  disk : after.disk = before.disk
  slots : after.cache.recent.slots = before.cache.recent.slots
  archive : after.cache.archive = before.cache.archive
  flights : after.cache.flights = before.cache.flights
  setup : after.setup = before.setup

theorem Alike.share {before after : Store} (alike : Alike before after) (key : String) :
    after.share key = before.share key := by
  simp only [Store.share, alike.disk, alike.slots, alike.archive, alike.flights]

theorem Alike.tidy {before after : Store} (alike : Alike before after)
    (tidy : before.Tidy known home) : after.Tidy known home where
  archive := by
    rw [alike.archive, alike.disk]
    exact tidy.archive
  distinct := by
    rw [alike.slots]
    exact tidy.distinct
  own := by
    rw [alike.slots]
    exact tidy.own

theorem Alike.moves {before after : Store} (alike : Alike before after)
    (tidy : before.Tidy known home) (key : String) : Moves known home key before after :=
  ⟨alike.tidy tidy, alike.setup, fun other _ => Or.inl (alike.share other)⟩

theorem alike_note (store : Store) (notices : List Notice) : Alike store (store.note notices) :=
  ⟨rfl, rfl, rfl, rfl, rfl⟩

theorem alike_count (store : Store) (ending : Ending) : Alike store (store.count ending) :=
  ⟨rfl, rfl, rfl, rfl, rfl⟩

/-! ## Changes of a flight -/

theorem moves_withFlights {store : Store} (tidy : store.Tidy known home) (key : String)
    (flights : Flights) (others : ∀ other, other ≠ key →
      flights.get? other = store.cache.flights.get? other) :
    Moves known home key store (store.withFlights flights) ∧
      (store.withFlights flights).share key =
        (store.share key).withFlight (flights.get? key) := by
  refine ⟨⟨⟨tidy.archive, tidy.distinct, tidy.own⟩, rfl, fun other differs => Or.inl ?_⟩, rfl⟩
  simp only [Store.share, withFlights, others other differs]

/-! ## Changes of a slot -/

theorem moves_withRecent {store : Store} (tidy : store.Tidy known home) {key : String}
    {entry : Option Entry} {recent : Recent} (slots : Recent.SlotChange store.cache.recent key entry recent)
    (own : ∀ held ∈ entry, known key ∧ held.key = key) :
    Moves known home key store (store.withRecent recent) ∧
      (store.withRecent recent).share key = (store.share key).withSlot entry := by
  refine ⟨⟨⟨tidy.archive, slots.distinct, fun asked held found => ?_⟩, rfl, fun other differs => ?_⟩,
    ?_⟩
  · change recent.slots.get? asked = some held at found
    rw [slots.lookups] at found
    split at found
    · rename_i same
      rw [same]
      exact own held found
    · exact tidy.own asked held found
  · apply Or.inl
    simp only [Store.share, withRecent, slots.lookups, if_neg differs]
  · simp only [Store.share, withRecent, slots.lookups, if_pos, Share.withSlot]

/-! ## Changes of the archive -/

theorem carryOut_spec {α : Type} {store : Store} (tidy : store.Tidy known home)
    {outcome : Outcome α} {shelves : String → Option Bytes}
    (leaves : outcome.Leaves known store.cache.archive store.disk home shelves) :
    (store.carryOut outcome).Tidy known home ∧ (store.carryOut outcome).setup = store.setup ∧
      ∀ key, (store.carryOut outcome).share key = (store.share key).withShelf (shelves key) := by
  refine ⟨⟨leaves.tidy, tidy.distinct, tidy.own⟩, ?_, fun key => ?_⟩
  · simp only [Store.setup, carryOut, leaves.root]
  · simp only [Store.share, carryOut, leaves.shelves, Share.withShelf]

theorem moves_carryOut {α : Type} {store : Store} (tidy : store.Tidy known home) (key : String)
    {outcome : Outcome α} {shelves : String → Option Bytes}
    (leaves : outcome.Leaves known store.cache.archive store.disk home shelves)
    (others : ∀ other, other ≠ key → shelves other = store.cache.archive.shelf store.disk other) :
    Moves known home key store (store.carryOut outcome) ∧
      (store.carryOut outcome).share key = (store.share key).withShelf (shelves key) := by
  obtain ⟨kept, setup, shares⟩ := carryOut_spec tidy leaves
  refine ⟨⟨kept, setup, fun other differs => Or.inl ?_⟩, shares key⟩
  rw [shares, others other differs]
  rfl

/-! ## Evictions -/

/-- Entries that leave tier 1 are on their shelves, and nothing else is changed. -/
theorem spillAll_spec (distinct : DistinctNames known) {store : Store} (tidy : store.Tidy known home)
    {evicted : Keyed Entry} (once : evicted.keys.Nodup)
    (own : ∀ pair ∈ evicted, known pair.1 ∧ pair.2.key = pair.1) :
    (store.spillAll evicted).Tidy known home ∧
      (store.spillAll evicted).setup = store.setup ∧
      ∀ key, (store.spillAll evicted).share key =
        (store.share key).withShelf
          (((evicted.get? key).map Entry.record).or (store.share key).shelf) := by
  induction evicted generalizing store with
  | nil => exact ⟨tidy, rfl, fun key => rfl⟩
  | cons pair evicted induction =>
      obtain ⟨key, entry⟩ := pair
      obtain ⟨⟨key_known, own_key⟩, own_later⟩ := List.forall_mem_cons.1 own
      obtain ⟨new, once_later⟩ := List.nodup_cons.1 once
      simp only at key_known own_key new
      subst own_key
      obtain ⟨kept, kept_setup, kept_shares⟩ :=
        carryOut_spec tidy (tidy.archive.spill distinct key_known)
      obtain ⟨later_tidy, setup, shares⟩ := induction kept once_later own_later
      refine ⟨later_tidy, setup.trans kept_setup, fun asked => ?_⟩
      refine (shares asked).trans ?_
      rw [kept_shares, Keyed.get?_cons]
      by_cases same : asked = entry.key
      · have gone : Keyed.get? evicted asked = none := Keyed.get?_eq_none_iff.2 (by rw [same]; exact new)
        rw [gone, if_pos same, if_pos same]
        rfl
      · rw [if_neg same, if_neg same]
        rfl

theorem share_withRecent (store : Store) (recent : Recent) (key : String) :
    (store.withRecent recent).share key = (store.share key).withSlot (recent.slots.get? key) := rfl

/-- A new entry comes to its slot, and what has to leave tier 1 for it goes to its shelf. -/
theorem moves_insert (distinct : DistinctNames known) {store : Store} (tidy : store.Tidy known home)
    {entry : Entry} (key_known : known entry.key) {recent : Recent}
    (same_slots : recent.slots = store.cache.recent.slots)
    (absent : store.cache.recent.slots.get? entry.key = none) :
    Moves known home entry.key store
        ((store.spillAll (recent.insert entry.key entry).1).withRecent
          (recent.insert entry.key entry).2) ∧
      ((store.spillAll (recent.insert entry.key entry).1).withRecent
          (recent.insert entry.key entry).2).share entry.key =
        (store.share entry.key).withSlot (some entry) := by
  have insertion : Recent.Insertion store.cache.recent.slots entry.key entry
      (recent.insert entry.key entry).1 (recent.insert entry.key entry).2.slots := by
    rw [← same_slots] at absent ⊢
    exact Recent.insertion_insert (by rw [same_slots]; exact tidy.distinct) absent entry
  generalize (recent.insert entry.key entry).1 = evicted at insertion ⊢
  generalize (recent.insert entry.key entry).2 = next at insertion ⊢
  have evicted_own : ∀ pair ∈ evicted, known pair.1 ∧ pair.2.key = pair.1 := by
    intro pair found
    have left := Keyed.get?_of_mem insertion.once found
    exact tidy.own pair.1 pair.2 (insertion.leaving pair.1 pair.2 left).1
  obtain ⟨spilled_tidy, setup, shares⟩ := spillAll_spec distinct tidy insertion.once evicted_own
  refine ⟨⟨⟨spilled_tidy.archive, insertion.distinct, ?_⟩, setup, ?_⟩, ?_⟩
  · intro key held found
    change next.slots.get? key = some held at found
    by_cases same : key = entry.key
    · rw [same, insertion.here] at found
      cases found
      exact ⟨same ▸ key_known, same.symm⟩
    · cases left : evicted.get? key with
      | none =>
          rw [insertion.staying key same left] at found
          exact tidy.own key held found
      | some other =>
          rw [(insertion.leaving key other left).2] at found
          cases found
  · intro other differs
    rw [share_withRecent, shares]
    cases left : evicted.get? other with
    | some held =>
        obtain ⟨slot, gone⟩ := insertion.leaving other held left
        rw [gone]
        exact Or.inr ⟨held, slot, rfl⟩
    | none =>
        rw [insertion.staying other differs left]
        exact Or.inl rfl
  · rw [share_withRecent, shares, insertion.here, insertion.new]
    rfl

end Store

end TieredCache
