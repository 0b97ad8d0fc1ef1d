import TieredCache.Keyed

/-!
# Keyed lists with distinct keys

When no key comes twice, the pairs of a keyed list are its keys with their values.
-/

namespace TieredCache.Keyed

variable {α : Type}

theorem mem_keys_iff {keyed : Keyed α} {key : String} :
    key ∈ keyed.keys ↔ ∃ value, keyed.get? key = some value := by
  rw [← has_iff_mem_keys, has, Option.isSome_iff_exists]

theorem get?_eq_none_iff {keyed : Keyed α} {key : String} :
    keyed.get? key = none ↔ key ∉ keyed.keys := by
  rw [← has_iff_mem_keys, has]
  cases keyed.get? key <;> simp

theorem has_eq_false_iff {keyed : Keyed α} {key : String} :
    keyed.has key = false ↔ keyed.get? key = none := by
  rw [has, Option.isSome_eq_false_iff, Option.isNone_iff_eq_none]

theorem mem_keys_of_mem {keyed : Keyed α} {pair : String × α} (found : pair ∈ keyed) :
    pair.1 ∈ keyed.keys := List.mem_map_of_mem found

theorem mem_of_get? {keyed : Keyed α} {key : String} {value : α}
    (found : keyed.get? key = some value) : (key, value) ∈ keyed := by
  induction keyed with
  | nil => cases found
  | cons first rest induction =>
      rw [get?_cons] at found
      split at found
      · rename_i same
        rw [same, ← Option.some.inj found]
        exact List.mem_cons_self
      · exact List.mem_cons_of_mem first (induction found)

/-- With distinct keys, a pair of the list is the one that its key finds. -/
theorem get?_of_mem {keyed : Keyed α} (distinct : keyed.keys.Nodup) {pair : String × α}
    (found : pair ∈ keyed) : keyed.get? pair.1 = some pair.2 := by
  induction keyed with
  | nil => cases found
  | cons first rest induction =>
      obtain ⟨new, distinct⟩ := List.nodup_cons.1 distinct
      rw [get?_cons]
      rcases List.mem_cons.1 found with rfl | later
      · rw [if_pos rfl]
      · have differs : pair.1 ≠ first.1 := by
          rintro same
          exact new (same ▸ mem_keys_of_mem later)
        rw [if_neg differs]
        exact induction distinct later

/-- With distinct keys, lists in which every key has the same value have the same number of pairs. -/
theorem length_eq_of_get?_eq {left right : Keyed α} (left_distinct : left.keys.Nodup)
    (right_distinct : right.keys.Nodup) (same : ∀ key, left.get? key = right.get? key) :
    left.length = right.length := by
  have keys : left.keys.Perm right.keys := by
    refine (List.perm_ext_iff_of_nodup left_distinct right_distinct).2 fun key => ?_
    rw [mem_keys_iff, mem_keys_iff, same]
  have lengths := keys.length_eq
  rwa [Keyed.keys, Keyed.keys, List.length_map, List.length_map] at lengths

theorem erase_of_not_mem {keyed : Keyed α} {key : String} (absent : key ∉ keyed.keys) :
    keyed.erase key = keyed := by
  refine List.filter_eq_self.2 fun pair found => ?_
  have differs : pair.1 ≠ key := by
    rintro rfl
    exact absent (mem_keys_of_mem found)
  simpa using differs

theorem put_of_not_mem {keyed : Keyed α} {key : String} (absent : key ∉ keyed.keys) (value : α) :
    keyed.put key value = keyed ++ [(key, value)] := by
  rw [put, erase_of_not_mem absent]

/-- What a key has after another one was taken away, or the same, it had before. -/
theorem of_get?_erase {keyed : Keyed α} {key asked : String} {value : α}
    (found : (keyed.erase key).get? asked = some value) : keyed.get? asked = some value := by
  rw [get?_erase] at found
  split at found
  · cases found
  · exact found

theorem nodup_erase {keyed : Keyed α} (distinct : keyed.keys.Nodup) (key : String) :
    (keyed.erase key).keys.Nodup := by
  rw [keys_erase]
  exact distinct.filter _

theorem nodup_put {keyed : Keyed α} (distinct : keyed.keys.Nodup) (key : String) (value : α) :
    (keyed.put key value).keys.Nodup := by
  rw [keys_put]
  refine List.nodup_append.2 ⟨distinct.filter _, by simp, ?_⟩
  intro other kept last found
  rw [List.mem_singleton] at found
  rintro rfl
  simp [found] at kept

/-- A key that was put is there once. -/
theorem count_keys_put (keyed : Keyed α) (key : String) (value : α) :
    (keyed.put key value).keys.count key = 1 := by
  have gone : (keyed.keys.filter fun other => other != key).count key = 0 :=
    List.count_eq_zero.2 (by simp)
  rw [keys_put, List.count_append, gone]
  simp

theorem get?_set (keyed : Keyed α) (key asked : String) (value : α) :
    (keyed.set key value).get? asked =
      if asked = key then (keyed.get? key).map fun _ => value else keyed.get? asked := by
  induction keyed with
  | nil => simp [set]
  | cons first rest induction =>
      rw [set] at induction ⊢
      rw [List.map_cons, get?_cons, get?_cons, get?_cons, induction]
      by_cases here : first.1 = key
      · by_cases same : asked = key
        · simp [here, same]
        · simp [here, same]
      · by_cases same : asked = key
        · have differs : ¬ key = first.1 := fun equal => here equal.symm
          simp [here, same, differs]
        · simp [here, same]

end TieredCache.Keyed
