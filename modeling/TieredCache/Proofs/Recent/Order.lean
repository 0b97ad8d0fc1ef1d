import Mathlib.Data.List.Dedup
import Mathlib.Data.List.Perm.Subperm
import TieredCache.Proofs.Recent.Uses

/-!
# The order of tier 1, and what leaves it

Writes, offers and reads that find something touch a key. The resident keys stand in the order in which
they were last touched, whatever else a run does. Only a new key evicts, and it evicts from the front, no
more than it must.
-/

namespace TieredCache

/-! ## Keys moved to the end -/

/-- The keys, of which some are moved to the end. -/
def moved (keys last : List String) : List String := (keys.filter fun key => key ∉ last) ++ last

/-- Moving no key leaves the keys in place. -/
theorem sublist_moved_nil {fewer keys : List String} (sublist : fewer.Sublist keys) :
    fewer.Sublist (moved keys []) := by
  simpa [moved] using sublist

theorem moved_of_not_mem {keys : List String} {key : String} (new : key ∉ keys) :
    moved keys [key] = keys ++ [key] := by
  have others : ∀ other ∈ keys, other ∉ [key] := by
    intro other found same
    rw [List.mem_singleton] at same
    exact new (same ▸ found)
  rw [moved, List.filter_eq_self.2 fun other found => decide_eq_true (others other found)]

theorem moved_sublist {fewer keys : List String} (sublist : fewer.Sublist keys)
    (last : List String) : (moved fewer last).Sublist (moved keys last) :=
  (sublist.filter _).append_right last

theorem keys_put_eq_moved (slots : Keyed Entry) (key : String) (entry : Entry) :
    (slots.put key entry).keys = moved slots.keys [key] := by
  have others : ∀ other ∈ slots.keys, (other != key) = decide (other ∉ [key]) := by
    intro other _
    by_cases same : other = key <;> simp [same]
  rw [Keyed.keys_put, moved, List.filter_congr others]

/-- Of the occurrences of a key, the last one counts. -/
theorem dedup_append_eq_moved (keys : List String) {last : List String} (distinct : last.Nodup) :
    (keys ++ last).dedup = moved keys.dedup last := by
  induction keys with
  | nil => rw [List.nil_append, distinct.dedup, List.dedup_nil, moved, List.filter_nil, List.nil_append]
  | cons key keys induction =>
      rw [List.cons_append]
      by_cases again : key ∈ keys
      · rw [List.dedup_cons_of_mem (List.mem_append_left last again), List.dedup_cons_of_mem again,
          induction]
      · rw [List.dedup_cons_of_notMem again, moved]
        by_cases later : key ∈ last
        · rw [List.dedup_cons_of_mem (List.mem_append_right keys later),
            List.filter_cons_of_neg (by simpa using later), induction, moved]
        · have new : key ∉ keys ++ last := by
            rw [List.mem_append, not_or]
            exact ⟨again, later⟩
          rw [List.dedup_cons_of_notMem new, List.filter_cons_of_pos (by simpa using later), induction,
            moved, List.cons_append]

/-- What is left of distinct keys is told by which ones are left. -/
theorem eq_filter_of_sublist {fewer keys : List String} (sublist : fewer.Sublist keys)
    (distinct : keys.Nodup) : fewer = keys.filter fun key => key ∈ fewer := by
  have kept : fewer.Sublist (keys.filter fun key => key ∈ fewer) := by
    have all := sublist.filter fun key => decide (key ∈ fewer)
    rwa [List.filter_eq_self.2 fun key found => decide_eq_true found] at all
  refine kept.eq_of_length_le (List.Nodup.subperm (distinct.filter _) fun key found => ?_).length_le
  simpa using (List.mem_filter.1 found).2

namespace Recent

variable {recent : Recent} {key : String} {entry : Entry} {use : Use}
  {evicted slots : Keyed Entry}

/-! ## Touches -/

/-- The key that a use moves to the last place. -/
def touched (recent : Recent) : Use → List String
  | .write key _ => [key]
  | .offer key _ _ => [key]
  | .fetch key _ => if recent.contains key then [key] else []
  | _ => []

theorem nodup_touched (recent : Recent) (use : Use) : (recent.touched use).Nodup := by
  cases use with
  | fetch key now =>
      rw [touched]
      split
      · exact List.nodup_singleton key
      · exact List.nodup_nil
  | write key entry => exact List.nodup_singleton key
  | offer key entry now => exact List.nodup_singleton key
  | adopt key copy => exact List.nodup_nil
  | erase key => exact List.nodup_nil
  | contains key => exact List.nodup_nil
  | clear => exact List.nodup_nil

/-- An insertion puts the new key last and takes others from the front. -/
theorem keys_insert_sublist (absent : recent.slots.get? key = none) (entry : Entry) :
    (Keyed.keys (recent.slots.drop recent.excess ++ [(key, entry)])).Sublist
      (moved recent.keys [key]) := by
  rw [keys, moved_of_not_mem (Keyed.get?_eq_none_iff.1 absent), Keyed.keys, List.map_append]
  exact ((List.drop_sublist recent.excess recent.slots).map Prod.fst).append_right [key]

/-- The touched key goes last, and no use changes the order of the others. -/
theorem Shifts.keys_sublist (shifts : recent.Shifts use evicted slots) :
    slots.keys.Sublist (moved recent.keys (recent.touched use)) := by
  cases shifts with
  | rewritten resident =>
      rw [keys_put_eq_moved]
      exact List.Sublist.refl _
  | written absent => exact keys_insert_sublist absent _
  | declined resident =>
      rw [keys_put_eq_moved]
      exact List.Sublist.refl _
  | taken absent => exact keys_insert_sublist absent _
  | @found key held now resident =>
      have here : recent.contains key = true := by
        rw [contains, Keyed.has, resident]
        rfl
      rw [keys_put_eq_moved, touched, if_pos here]
      exact List.Sublist.refl _
  | @missed key now absent =>
      have gone : ¬ recent.contains key = true := by
        rw [contains, Keyed.has, absent]
        exact Bool.false_ne_true
      rw [touched, if_neg gone]
      exact sublist_moved_nil (List.Sublist.refl _)
  | adopted resident current =>
      rw [Keyed.keys_set]
      exact sublist_moved_nil (List.Sublist.refl _)
  | refused stale => exact sublist_moved_nil (List.Sublist.refl _)
  | erased =>
      rw [Keyed.keys_erase]
      exact sublist_moved_nil List.filter_sublist
  | asked => exact sublist_moved_nil (List.Sublist.refl _)
  | cleared => exact List.nil_sublist _

/-- The keys of a run are in the order of their last touch. -/
theorem keys_through_sublist {log : List String} (ordered : recent.keys.Sublist log.dedup)
    (uses : List Use) :
    (recent.through uses).keys.Sublist (log ++ recent.chronicle touched uses).dedup := by
  induction uses generalizing recent log with
  | nil =>
      rw [chronicle, List.append_nil]
      exact ordered
  | cons use later induction =>
      have next : (recent.after use).keys.Sublist (log ++ recent.touched use).dedup := by
        rw [dedup_append_eq_moved log (recent.nodup_touched use)]
        exact (recent.shifts use).keys_sublist.trans (moved_sublist ordered _)
      rw [chronicle, ← List.append_assoc]
      exact induction next

/-! ## Evictions -/

/-- A key that is put where it was before takes no more room. -/
theorem length_put_le {held : Entry} (resident : slots.get? key = some held)
    (entry : Entry) : (slots.put key entry).length ≤ slots.length := by
  have fewer : (slots.erase key).length < slots.length := by
    refine List.length_filter_lt_length_iff_exists.2 ⟨(key, held), Keyed.mem_of_get? resident, ?_⟩
    simp
  rw [Keyed.put, List.length_append]
  exact fewer

/-- The key and the entry that a use adds to those that are resident. -/
def adds? (recent : Recent) : Use → Option (String × Entry)
  | .write key entry => if recent.contains key then none else some (key, entry)
  | .offer key entry _ => if recent.contains key then none else some (key, entry)
  | _ => none

/-- A use that adds a key evicts as many of the first slots as have to leave. -/
theorem shift_of_adds? (adds : recent.adds? use = some (key, entry)) :
    recent.evicted use = recent.slots.take recent.excess ∧
      (recent.after use).slots =
        recent.slots.drop recent.excess ++ [(key, entry.stamped recent.nextStamp)] := by
  have new : recent.contains key = false ∧
      (use = .write key entry ∨ ∃ now, use = .offer key entry now) := by
    cases use <;> simp only [adds?, reduceCtorEq] at adds
    · split at adds
      · cases adds
      · rename_i absent
        cases adds
        exact ⟨Bool.eq_false_iff.2 absent, Or.inl rfl⟩
    · split at adds
      · cases adds
      · rename_i absent
        cases adds
        exact ⟨Bool.eq_false_iff.2 absent, Or.inr ⟨_, rfl⟩⟩
  obtain ⟨absent, rfl | ⟨now, rfl⟩⟩ := new
  · rw [evicted, after, serve, write_absent absent]
    exact ⟨rfl, rfl⟩
  · have free : recent.slots.get? key = none := by
      rwa [contains, Keyed.has, Option.isSome_eq_false_iff, Option.isNone_iff_eq_none] at absent
    rw [evicted, after, serve, offer_absent free]
    exact ⟨rfl, rfl⟩

/-- A use that adds no key evicts nothing, and leaves no more slots than there were. -/
theorem Shifts.of_adds?_none (shifts : recent.Shifts use evicted slots)
    (adds : recent.adds? use = none) : evicted = [] ∧ slots.length ≤ recent.slots.length := by
  cases shifts with
  | written absent => simp [adds?, contains, Keyed.has, absent] at adds
  | taken absent => simp [adds?, contains, Keyed.has, absent] at adds
  | rewritten resident => exact ⟨rfl, length_put_le resident _⟩
  | declined resident => exact ⟨rfl, length_put_le resident _⟩
  | found resident => exact ⟨rfl, length_put_le resident _⟩
  | missed absent => exact ⟨rfl, Nat.le_refl _⟩
  | adopted resident current => exact ⟨rfl, Nat.le_of_eq (List.length_map _)⟩
  | refused stale => exact ⟨rfl, Nat.le_refl _⟩
  | erased => exact ⟨rfl, List.length_filter_le _ _⟩
  | asked => exact ⟨rfl, Nat.le_refl _⟩
  | cleared => exact ⟨rfl, Nat.zero_le _⟩

/-- What a use evicts is the front of the slots as it stands. Only a new key that finds no room evicts. It
goes on until there is room or nothing is left, and no further. -/
structure EvictsFront (recent : Recent) (use : Use) : Prop where
  pressed : recent.evicted use ≠ [] → (recent.adds? use).isSome ∧ recent.capacity ≤ recent.size
  needed : ∀ fewer < (recent.evicted use).length, recent.capacity ≤ recent.size - fewer
  front : ∀ key entry, recent.adds? use = some (key, entry) → ∃ staying : Keyed Entry,
    recent.slots = recent.evicted use ++ staying ∧
      (recent.after use).slots = staying ++ [(key, entry.stamped recent.nextStamp)] ∧
      (staying = [] ∨ staying.length < recent.capacity)

theorem evictsFront (recent : Recent) (use : Use) : recent.EvictsFront use := by
  cases adds : recent.adds? use with
  | none =>
      have nothing := ((recent.shifts use).of_adds?_none adds).1
      refine ⟨fun some => absurd nothing some, fun fewer less => ?_, fun key entry new => ?_⟩
      · rw [nothing] at less
        exact absurd less (Nat.not_lt_zero fewer)
      · rw [adds] at new
        cases new
  | some pair =>
      obtain ⟨key, entry⟩ := pair
      obtain ⟨evicted, after⟩ := shift_of_adds? adds
      have excess : recent.excess = recent.slots.length + 1 - recent.capacity := rfl
      have length : (recent.evicted use).length = min recent.excess recent.slots.length := by
        rw [evicted, List.length_take]
      refine ⟨fun some => ⟨by rw [adds]; rfl, ?_⟩, fun fewer less => ?_, fun other held new => ?_⟩
      · have positive := List.length_pos_of_ne_nil some
        rw [size]
        omega
      · rw [size]
        omega
      · rw [adds] at new
        cases new
        refine ⟨recent.slots.drop recent.excess, ?_, after, ?_⟩
        · rw [evicted, List.take_append_drop]
        · rw [← List.length_eq_zero_iff, List.length_drop]
          omega

/-! ## Size -/

theorem size_after (room : recent.size ≤ max recent.capacity 1) (use : Use) :
    (recent.after use).size ≤ max recent.capacity 1 := by
  cases adds : recent.adds? use with
  | some pair =>
      obtain ⟨key, entry⟩ := pair
      rw [size, (shift_of_adds? adds).2, List.length_append, List.length_drop, List.length_singleton,
        excess, size]
      omega
  | none => exact Nat.le_trans ((recent.shifts use).of_adds?_none adds).2 room

theorem size_through (room : recent.size ≤ max recent.capacity 1) (uses : List Use) :
    (recent.through uses).size ≤ max recent.capacity 1 := by
  induction uses generalizing recent with
  | nil => exact room
  | cons use later induction =>
      have next := size_after room use
      rw [← (recent.frame_after use).2] at next ⊢
      exact induction next

end Recent

end TieredCache
