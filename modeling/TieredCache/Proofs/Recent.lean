import TieredCache.Proofs.Keyed
import TieredCache.Recent

/-!
# Tier 1 key by key

Every operation of tier 1 changes the slot of one key. An insertion also takes out the slots that have
to leave, and loses none of them: they come with its result.
-/

namespace TieredCache

/-- The entry with the stamp of a write. -/
def Entry.stamped (entry : Entry) (stamp : UInt64) : Entry := { entry with stamp }

namespace Recent

/-- The slots differ at one key, where they hold what is given. -/
structure SlotChange (before : Recent) (key : String) (entry : Option Entry) (after : Recent) :
    Prop where
  distinct : after.slots.keys.Nodup
  lookups : ∀ asked, after.slots.get? asked = if asked = key then entry else before.slots.get? asked

variable {recent : Recent}

theorem slotChange_put (distinct : recent.slots.keys.Nodup) (key : String) (entry : Entry) :
    SlotChange recent key (some entry) { recent with slots := recent.slots.put key entry } :=
  ⟨Keyed.nodup_put distinct key entry, fun asked => Keyed.get?_put recent.slots key asked entry⟩

theorem slotChange_set (distinct : recent.slots.keys.Nodup) {key : String} {old : Entry}
    (held : recent.slots.get? key = some old) (entry : Entry) :
    SlotChange recent key (some entry) { recent with slots := recent.slots.set key entry } := by
  refine ⟨?_, fun asked => ?_⟩
  · rw [Keyed.keys_set]
    exact distinct
  · rw [Keyed.get?_set, held]
    rfl

theorem slotChange_erase (distinct : recent.slots.keys.Nodup) (key : String) :
    SlotChange recent key none { recent with slots := recent.slots.erase key } :=
  ⟨Keyed.nodup_erase distinct key, fun asked => Keyed.get?_erase recent.slots key asked⟩

/-- A key gets its first slot. Every other slot stays or is evicted. -/
structure Insertion (before : Keyed Entry) (key : String) (entry : Entry)
    (evicted after : Keyed Entry) : Prop where
  once : evicted.keys.Nodup
  distinct : after.keys.Nodup
  new : evicted.get? key = none
  here : after.get? key = some entry
  leaving : ∀ asked held, evicted.get? asked = some held →
    before.get? asked = some held ∧ after.get? asked = none
  staying : ∀ asked, asked ≠ key → evicted.get? asked = none → after.get? asked = before.get? asked

/-- What an insertion takes out is what it answers. -/
theorem insertion_insert (distinct : recent.slots.keys.Nodup) {key : String}
    (absent : recent.slots.get? key = none) (entry : Entry) :
    Insertion recent.slots key entry (recent.insert key entry).1 (recent.insert key entry).2.slots := by
  obtain ⟨leaving, staying, parts, leaving_eq, staying_eq⟩ : ∃ leaving staying : Keyed Entry,
      leaving ++ staying = recent.slots ∧ (recent.insert key entry).1 = leaving ∧
        (recent.insert key entry).2.slots = staying ++ [(key, entry)] :=
    ⟨_, _, List.take_append_drop recent.excess recent.slots, rfl, rfl⟩
  rw [leaving_eq, staying_eq]
  have lookups : ∀ asked, recent.slots.get? asked =
      (leaving.get? asked).or (staying.get? asked) := by
    intro asked
    rw [← Keyed.get?_append, parts]
  rw [← parts, Keyed.keys, List.map_append] at distinct
  obtain ⟨leaving_once, staying_once, apart⟩ := List.nodup_append.1 distinct
  rw [lookups, Option.or_eq_none_iff] at absent
  obtain ⟨not_leaving, not_staying⟩ := absent
  have after_lookups : ∀ asked, Keyed.get? (staying ++ [(key, entry)]) asked =
      if asked = key then some entry else staying.get? asked := by
    intro asked
    rw [Keyed.get?_append, Keyed.get?_cons]
    by_cases same : asked = key
    · rw [same, not_staying]
      simp
    · simp [same]
  refine ⟨leaving_once, ?_, not_leaving, ?_, ?_, ?_⟩
  · rw [← Keyed.put_of_not_mem (Keyed.get?_eq_none_iff.1 not_staying)]
    exact Keyed.nodup_put staying_once key entry
  · rw [after_lookups, if_pos rfl]
  · intro asked held found
    have differs : asked ≠ key := by
      rintro rfl
      rw [not_leaving] at found
      cases found
    refine ⟨by rw [lookups, found]; rfl, ?_⟩
    rw [after_lookups, if_neg differs]
    refine Keyed.get?_eq_none_iff.2 fun stays => ?_
    exact apart asked (Keyed.mem_keys_iff.2 ⟨held, found⟩) asked stays rfl
  · intro asked differs stays
    rw [after_lookups, if_neg differs, lookups, stays]
    rfl

/-! ## Operations -/

/-- Tier 1 after the stamp of one more write was taken. -/
def advanced (recent : Recent) : Recent := { recent with nextStamp := recent.nextStamp + 1 }

theorem write_resident {key : String} (resident : recent.slots.has key = true) (entry : Entry) :
    recent.write key entry = ([], { recent.advanced with
      slots := recent.slots.put key (entry.stamped recent.nextStamp) }) := by
  simp only [write, mark, contains, resident, if_true, advanced, Entry.stamped]

theorem write_absent {key : String} (absent : recent.slots.has key = false) (entry : Entry) :
    recent.write key entry = recent.advanced.insert key (entry.stamped recent.nextStamp) := by
  simp only [write, mark, contains, absent, Bool.false_eq_true, if_false, advanced, Entry.stamped]

theorem offer_resident {key : String} {held : Entry} (resident : recent.slots.get? key = some held)
    (entry : Entry) (now : Moment) :
    recent.offer key entry now = (held.touch now, [], { recent.advanced with
      slots := recent.slots.put key (held.touch now) }) := by
  simp only [offer, mark, fetch, resident, advanced]

theorem offer_absent {key : String} (absent : recent.slots.get? key = none) (entry : Entry)
    (now : Moment) : recent.offer key entry now =
      (entry.stamped recent.nextStamp, recent.advanced.insert key (entry.stamped recent.nextStamp)) := by
  simp only [offer, mark, fetch, absent, advanced, Entry.stamped]

end Recent

end TieredCache
