import TieredCache.Proofs.Recent.Uses

/-!
# Hydration that lasts

A slot takes over the hydration of any copy that was read from what it holds. It loses nothing by this
exactly if the copy has what the slot has by then, which another copy may have brought in the meantime.
No other use that leaves the slot in place takes hydration away.
-/

namespace TieredCache

/-- What an entry has of hydration, another one has too. -/
structure Entry.Retains (held later : Entry) : Prop where
  hydrated : held.hydrated = true → later.hydrated = true
  artifacts : ∀ path, held.artifacts.has path = true → later.artifacts.has path = true

namespace Entry.Retains

variable {held middle later copy : Entry}

theorem refl (held : Entry) : held.Retains held := ⟨id, fun _ => id⟩

theorem touch (held : Entry) (now : Moment) : held.Retains (held.touch now) := ⟨id, fun _ => id⟩

theorem trans (first : held.Retains middle) (second : middle.Retains later) : held.Retains later :=
  ⟨second.hydrated ∘ first.hydrated, fun path => second.artifacts path ∘ first.artifacts path⟩

/-- An entry that adopts a hydration has what the copy has, and nothing of its own. -/
theorem adopt_iff : held.Retains (held.adopt copy) ↔ held.Retains copy :=
  ⟨fun retains => ⟨retains.hydrated, retains.artifacts⟩,
    fun retains => ⟨retains.hydrated, retains.artifacts⟩⟩

end Entry.Retains

/-- A slot has an entry after as before, and it loses no hydration. -/
def Upholds (before after : Option Entry) : Prop :=
  ∀ held, before = some held → ∃ later, after = some later ∧ held.Retains later

namespace Upholds

variable {before middle after : Option Entry} {held later : Entry}

theorem refl (slot : Option Entry) : Upholds slot slot := fun held found => ⟨held, found, .refl held⟩

theorem trans (first : Upholds before middle) (second : Upholds middle after) :
    Upholds before after := by
  intro held found
  obtain ⟨between, there, retains⟩ := first held found
  obtain ⟨later, here, rest⟩ := second between there
  exact ⟨later, here, retains.trans rest⟩

theorem some_iff : Upholds (some held) (some later) ↔ held.Retains later := by
  refine ⟨fun upholds => ?_, fun retains => ?_⟩
  · obtain ⟨found, same, retains⟩ := upholds held rfl
    rwa [Option.some.inj same]
  · rintro found ⟨⟩
    exact ⟨later, rfl, retains⟩

end Upholds

/-! ## Runs -/

section Lasts

variable {σ α : Type} {step : σ → α → σ} {slot : σ → Option Entry} {start : σ} {run : List α}

/-- At no two points of a run has a slot lost hydration from the earlier to the later one. -/
def Lasts (step : σ → α → σ) (slot : σ → Option Entry) (start : σ) (run : List α) : Prop :=
  ∀ first between rest, run = first ++ between ++ rest →
    Upholds (slot (first.foldl step start)) (slot ((first ++ between).foldl step start))

/-- Hydration lasts through a run if it lasts through every step. -/
theorem upholds_of_steps
    (steps : ∀ before event rest, run = before ++ event :: rest →
      Upholds (slot (before.foldl step start)) (slot (step (before.foldl step start) event))) :
    Upholds (slot start) (slot (run.foldl step start)) := by
  induction run generalizing start with
  | nil => exact .refl _
  | cons event later induction =>
      refine (steps [] event later rfl).trans (induction fun before next rest parts => ?_)
      exact steps (event :: before) next rest (congrArg (event :: ·) parts)

theorem lasts_iff_steps :
    Lasts step slot start run ↔ ∀ before event rest, run = before ++ event :: rest →
      Upholds (slot (before.foldl step start)) (slot (step (before.foldl step start) event)) := by
  refine ⟨fun lasts before event rest parts => ?_, fun steps first between rest parts => ?_⟩
  · have upholds := lasts before [event] rest (by simp [parts])
    rwa [List.foldl_append] at upholds
  · rw [List.foldl_append]
    refine upholds_of_steps fun before event later split => ?_
    rw [← List.foldl_append]
    exact steps (first ++ before) event (later ++ rest) (by simp [parts, split])

end Lasts

namespace Recent

variable {recent : Recent} {key : String} {use : Use}

/-- The entry of a key. -/
def slot (key : String) (recent : Recent) : Option Entry := recent.slots.get? key

/-- A use that leaves a slot in place takes hydration from it only by storing a copy that has less. -/
theorem upholds_iff (distinct : recent.slots.keys.Nodup)
    (kept : recent.displaces key use = false) :
    Upholds (recent.slot key) ((recent.after use).slot key) ↔
      ∀ copy held, use = .adopt key copy → recent.slot key = some held →
        held.stamp = copy.stamp → held.Retains copy := by
  cases found : recent.slot key with
  | none => exact iff_of_true (fun held found => nomatch found) fun copy held _ found => nomatch found
  | some held =>
      have adopted : ∀ copy, use = .adopt key copy →
          (recent.after use).slot key = some (held.absorb copy) := by
        rintro copy rfl
        rw [slot, get?_after distinct, show recent.slots.get? key = some held from found]
        exact if_pos rfl
      refine ⟨fun upholds copy other stored same current => ?_, fun retains => ?_⟩
      · cases same
        rw [adopted copy stored, Upholds.some_iff, Entry.absorb, if_pos current] at upholds
        exact Entry.Retains.adopt_iff.1 upholds
      · rcases get?_kept distinct kept found with same | ⟨now, read⟩ | ⟨copy, stored, here⟩
        · rw [slot, same]
          exact .refl _
        · rw [slot, read, Upholds.some_iff]
          exact .touch held now
        · rw [slot, here, Upholds.some_iff, Entry.absorb]
          split
          · rename_i current
            exact Entry.Retains.adopt_iff.2 (retains copy held stored rfl current)
          · exact .refl held

/-! ## Runs of uses -/

/-- Hydration lasts as long as every copy that is stored back has what the slot has by then. -/
theorem lasts_iff (distinct : recent.slots.keys.Nodup) {uses : List Use}
    (kept : keeps key recent uses = true) :
    Lasts after (slot key) recent uses ↔ ∀ before copy rest held, uses = before ++ .adopt key copy :: rest →
      (recent.through before).slot key = some held → held.stamp = copy.stamp → held.Retains copy := by
  have step : ∀ before use rest, uses = before ++ use :: rest →
      (Upholds ((recent.through before).slot key) (((recent.through before).after use).slot key) ↔
        ∀ copy held, use = .adopt key copy → (recent.through before).slot key = some held →
          held.stamp = copy.stamp → held.Retains copy) := fun before use rest parts =>
    upholds_iff (distinct_through distinct before) (kept_of_keeps kept parts)
  rw [lasts_iff_steps]
  refine ⟨fun upholds before copy rest held parts => ?_, fun retains before use rest parts => ?_⟩
  · exact (step before _ rest parts).1 (upholds before _ rest parts) copy held rfl
  · refine (step before use rest parts).2 fun copy held same => ?_
    exact retains before copy rest held (same ▸ parts)

end Recent

end TieredCache
