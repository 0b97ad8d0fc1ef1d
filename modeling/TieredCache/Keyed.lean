/-!
# Keyed lists

Values by key, in an order that the operations keep or change on purpose. The values under one key are
those of its first pair; every operation here leaves at most one pair for a key that it sets.
-/

namespace TieredCache

/-- Values by key. -/
abbrev Keyed (α : Type) := List (String × α)

namespace Keyed

variable {α : Type}

/-- The value of a key. -/
def get? (keyed : Keyed α) (key : String) : Option α := keyed.lookup key

/-- Whether a key has a value. -/
def has (keyed : Keyed α) (key : String) : Bool := (keyed.get? key).isSome

/-- The keys, in their order. -/
def keys (keyed : Keyed α) : List String := keyed.map Prod.fst

/-- Takes a key away. -/
def erase (keyed : Keyed α) (key : String) : Keyed α := keyed.filter fun pair => pair.1 != key

/-- Gives a key a value and the last place. -/
def put (keyed : Keyed α) (key : String) (value : α) : Keyed α := keyed.erase key ++ [(key, value)]

/-- Gives a key another value in its place. -/
def set (keyed : Keyed α) (key : String) (value : α) : Keyed α :=
  keyed.map fun pair => if pair.1 = key then (key, value) else pair

/-! ## Values after an operation -/

@[simp] theorem get?_nil (key : String) : get? ([] : Keyed α) key = none := rfl

theorem get?_cons (first : String × α) (rest : Keyed α) (key : String) :
    get? (first :: rest) key = if key = first.1 then some first.2 else rest.get? key := by
  obtain ⟨other, value⟩ := first
  by_cases same : key = other
  · simp [get?, same]
  · have differs : (key == other) = false := by simpa using same
    simp [get?, List.lookup_cons, same, differs]

theorem get?_append (left right : Keyed α) (key : String) :
    get? (left ++ right) key = (left.get? key).or (right.get? key) := by
  induction left with
  | nil => simp
  | cons first rest induction =>
      rw [List.cons_append, get?_cons, get?_cons, induction]
      split <;> rfl

/-- A key that was taken away has no value, and every other key keeps its own. -/
theorem get?_erase (keyed : Keyed α) (key asked : String) :
    (keyed.erase key).get? asked = if asked = key then none else keyed.get? asked := by
  induction keyed with
  | nil => simp [erase]
  | cons first rest induction =>
      unfold erase at induction ⊢
      by_cases gone : first.1 = key
      · rw [List.filter_cons_of_neg (by simp [gone]), induction, get?_cons]
        by_cases same : asked = key
        · simp [same]
        · simp [same, gone]
      · rw [List.filter_cons_of_pos (by simp [gone]), get?_cons, get?_cons, induction]
        by_cases same : asked = key
        · have differs : ¬ asked = first.1 := fun equal => gone (equal ▸ same)
          simp only [if_neg differs, if_pos same]
        · simp [same]

/-- A key has the value that was put last. -/
theorem get?_put (keyed : Keyed α) (key asked : String) (value : α) :
    (keyed.put key value).get? asked = if asked = key then some value else keyed.get? asked := by
  rw [put, get?_append, get?_erase, get?_cons]
  by_cases same : asked = key <;> simp [same]

/-! ## Keys after an operation -/

theorem has_iff_mem_keys (keyed : Keyed α) (key : String) : keyed.has key ↔ key ∈ keyed.keys := by
  induction keyed with
  | nil => simp [has, keys]
  | cons first rest induction =>
      unfold has at induction ⊢
      rw [get?_cons]
      by_cases same : key = first.1
      · simp [keys, same]
      · simp only [same, if_false, keys, List.map_cons, List.mem_cons, false_or]
        exact induction

theorem keys_erase (keyed : Keyed α) (key : String) :
    (keyed.erase key).keys = keyed.keys.filter fun other => other != key := by
  simp only [keys, erase, List.filter_map]
  rfl

theorem keys_put (keyed : Keyed α) (key : String) (value : α) :
    (keyed.put key value).keys = (keyed.keys.filter fun other => other != key) ++ [key] := by
  rw [put, keys, List.map_append, ← keys, keys_erase]
  rfl

@[simp] theorem keys_set (keyed : Keyed α) (key : String) (value : α) :
    (keyed.set key value).keys = keyed.keys := by
  simp only [keys, set, List.map_map]
  refine List.map_congr_left fun pair _ => ?_
  simp only [Function.comp]
  split
  · rename_i same; exact same.symm
  · rfl

end Keyed

end TieredCache
