import TieredCache.Lookup.Run
import TieredCache.Proofs.Store.Share

/-!
# Operations on the shares

What each operation of a cache does to the shares, one theorem for each.
-/

namespace TieredCache

namespace Store

variable {known : String → Prop} {home : Path}

/-! ## Writing -/

/-- A description changes nothing but the tags. -/
theorem described_eq (cache : Cache) (entry : Entry) :
    ∃ tags, described cache entry = { entry with tags } := by
  unfold described
  split
  · exact ⟨entry.tags, rfl⟩
  · split
    · exact ⟨some _, rfl⟩
    · exact ⟨entry.tags, rfl⟩

theorem key_described (cache : Cache) (entry : Entry) : (described cache entry).key = entry.key := by
  obtain ⟨tags, same⟩ := described_eq cache entry
  rw [same]

theorem paths_described (cache : Cache) (entry : Entry) :
    (described cache entry).paths = entry.paths := by
  obtain ⟨tags, same⟩ := described_eq cache entry
  rw [same]

theorem params_described (cache : Cache) (entry : Entry) :
    (described cache entry).params = entry.params := by
  obtain ⟨tags, same⟩ := described_eq cache entry
  rw [same]

/-- A store in which an entry was written to tier 1. -/
def written (store : Store) (entry : Entry) : Store :=
  (store.spillAll (store.cache.recent.write entry.key entry).1).withRecent
    (store.cache.recent.write entry.key entry).2

/-- An entry that is written is in its slot. -/
theorem moves_written (distinct : DistinctNames known) {store : Store} (tidy : store.Tidy known home)
    {entry : Entry} (key_known : known entry.key) :
    Moves known home entry.key store (store.written entry) ∧
      (store.written entry).share entry.key =
        (store.share entry.key).withSlot (some (entry.stamped store.cache.recent.nextStamp)) := by
  unfold written
  cases resident : store.cache.recent.slots.has entry.key with
  | true =>
      rw [Recent.write_resident resident]
      have slots := Recent.slotChange_put tidy.distinct entry.key
        (entry.stamped store.cache.recent.nextStamp)
      refine moves_withRecent tidy ⟨slots.distinct, slots.lookups⟩ ?_
      rintro held ⟨⟩
      exact ⟨key_known, rfl⟩
  | false =>
      rw [Recent.write_absent resident]
      have absent := Keyed.has_eq_false_iff.1 resident
      exact @moves_insert _ _ distinct store tidy (entry.stamped store.cache.recent.nextStamp) key_known
        store.cache.recent.advanced rfl absent

theorem putEntry_refused (store : Store) {entry : Entry} (empty : entry.key.isEmpty = true) :
    store.putEntry entry = .error .emptyKey := by
  simp only [putEntry, Fault.checkKey, empty]
  rfl

theorem putEntry_eq {store : Store} {entry : Entry} (nonempty : entry.key.isEmpty = false) :
    store.putEntry entry =
      .ok (described store.cache entry, store.written (described store.cache entry)) := by
  simp only [putEntry, Fault.checkKey, nonempty]
  rfl

theorem moves_putEntry (distinct : DistinctNames known) {store : Store} (tidy : store.Tidy known home)
    {entry : Entry} (key_known : known entry.key) :
    Moves known home entry.key store (store.written (described store.cache entry)) ∧
      (store.written (described store.cache entry)).share entry.key =
        (store.share entry.key).withSlot
          (some ((described store.cache entry).stamped store.cache.recent.nextStamp)) := by
  have same_key := key_described store.cache entry
  have moved := @moves_written known home distinct store tidy (described store.cache entry)
    (by rw [same_key]; exact key_known)
  rw [same_key] at moved
  exact moved

/-! ## Removing -/

theorem remove_refused (store : Store) {key : String} (empty : key.isEmpty = true) :
    store.remove key = .error .emptyKey := by
  simp only [Store.remove, Fault.checkKey, empty]
  rfl

/-- A removed key has neither slot nor shelf. The answer is whether it had either. -/
theorem remove_spec (distinct : DistinctNames known) {store : Store} (tidy : store.Tidy known home)
    {key : String} (key_known : known key) (nonempty : key.isEmpty = false) :
    ∃ after, store.remove key =
        .ok ((store.share key).slot.isSome || (store.share key).shelf.isSome, after) ∧
      Moves known home key store after ∧
      after.share key = ((store.share key).withSlot none).withShelf none := by
  obtain ⟨answer, leaves⟩ := tidy.archive.remove distinct key_known
  have slots := Recent.slotChange_erase tidy.distinct key
  obtain ⟨first, first_share⟩ := moves_withRecent tidy ⟨slots.distinct, slots.lookups⟩
    (by rintro held ⟨⟩)
  obtain ⟨second, second_share⟩ := moves_carryOut first.tidy key leaves
    fun other differs => if_neg differs
  refine ⟨_, ?_, first.trans second, ?_⟩
  · simp only [Store.remove, Fault.checkKey, nonempty, Recent.erase, answer]
    rfl
  · rw [second_share, first_share, if_pos rfl]

/-- A clearing of both tiers leaves no slot and no shelf. -/
theorem clear_spec {store : Store} (tidy : store.Tidy known home) :
    (store.clear false).2.Tidy known home ∧ (store.clear false).2.setup = store.setup ∧
      ∀ key, (store.clear false).2.share key = ((store.share key).withSlot none).withShelf none := by
  have emptied : (store.withRecent store.cache.recent.clear.2).Tidy known home :=
    ⟨tidy.archive, List.nodup_nil, fun key entry found => by cases found⟩
  obtain ⟨kept, setup, shares⟩ := carryOut_spec emptied tidy.archive.clear
  exact ⟨kept, setup, shares⟩

/-- A clearing of tier 1 alone leaves the shelves. -/
theorem clearRecent_spec {store : Store} (tidy : store.Tidy known home) :
    (store.clear true).2.Tidy known home ∧ (store.clear true).2.setup = store.setup ∧
      ∀ key, (store.clear true).2.share key = (store.share key).withSlot none :=
  ⟨⟨tidy.archive, List.nodup_nil, fun key entry found => by cases found⟩, rfl, fun _ => rfl⟩

/-! ## Upkeep -/

theorem rebuildIndex_spec {store : Store} (tidy : store.Tidy known home) :
    store.rebuildIndex.2.Tidy known home ∧ store.rebuildIndex.2.setup = store.setup ∧
      ∀ key, store.rebuildIndex.2.share key = store.share key := by
  obtain ⟨kept, setup, shares⟩ := carryOut_spec tidy tidy.archive.rebuild
  exact ⟨kept, setup, shares⟩

theorem alike_hydrate {σ : Type} (store : Store) (resolve : Resolver σ) (state : σ) (entry : Entry) :
    Alike store (store.hydrate resolve state entry).2.2.1 :=
  alike_note store _

theorem alike_resetTally (store : Store) : Alike store store.resetTally :=
  ⟨rfl, rfl, rfl, rfl, rfl⟩

end Store

namespace Share

/-- Puts an entry in the slot unless there is one. The entry that is then there comes with the result. -/
def offer (share : Share) (entry : Entry) (now : Moment) (stamp : UInt64) : Entry × Share :=
  match share.slot with
  | some resident => (resident.touch now, share.withSlot (some (resident.touch now)))
  | none => (entry.stamped stamp, share.withSlot (some (entry.stamped stamp)))

@[simp] theorem flight_offer (share : Share) (entry : Entry) (now : Moment) (stamp : UInt64) :
    (share.offer entry now stamp).2.flight = share.flight := by
  unfold offer
  split <;> rfl

end Share

namespace Store

variable {known : String → Prop} {home : Path}

theorem moves_offer (distinct : DistinctNames known) {store : Store} (tidy : store.Tidy known home)
    {key : String} {entry : Entry} (own : entry.key = key) (key_known : known key) (now : Moment) :
    Moves known home key store (store.offer key entry now).2 ∧
      ((store.offer key entry now).1, (store.offer key entry now).2.share key) =
        (store.share key).offer entry now store.cache.recent.nextStamp := by
  subst own
  unfold Store.offer
  cases resident : store.cache.recent.slots.get? entry.key with
  | some held =>
      rw [Recent.offer_resident resident]
      have slots := Recent.slotChange_put tidy.distinct entry.key (held.touch now)
      obtain ⟨_, own⟩ := tidy.own entry.key held resident
      have slot : (store.share entry.key).slot = some held := resident
      obtain ⟨moves, share⟩ := @moves_withRecent _ _ store tidy entry.key (some (held.touch now))
        { store.cache.recent.advanced with
          slots := store.cache.recent.slots.put entry.key (held.touch now) }
        ⟨slots.distinct, slots.lookups⟩ (by rintro other ⟨⟩; exact ⟨key_known, own⟩)
      refine ⟨moves, ?_⟩
      simp only [Share.offer, slot]
      exact Prod.ext rfl share
  | none =>
      rw [Recent.offer_absent resident]
      have slot : (store.share entry.key).slot = none := resident
      obtain ⟨moves, share⟩ := @moves_insert _ _ distinct store tidy
        (entry.stamped store.cache.recent.nextStamp) key_known store.cache.recent.advanced rfl resident
      refine ⟨moves, ?_⟩
      simp only [Share.offer, slot]
      exact Prod.ext rfl share

end Store

end TieredCache
