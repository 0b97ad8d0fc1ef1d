import TieredCache.Proofs.Recent
import TieredCache.Uses

/-!
# What a use leaves

`Recent.shifts` says once what each use does to the slots of tier 1 and what it evicts. What holds after
every use is read off from it: the keys stay distinct, and `Recent.get?_after` tells the slot of any key.
-/

namespace TieredCache

namespace Recent

/-- What a use evicts, and the slots after it. -/
inductive Shifts (recent : Recent) : Use → Keyed Entry → Keyed Entry → Prop where
  /-- A key is written that was resident. -/
  | rewritten {key : String} {entry held : Entry} (resident : recent.slots.get? key = some held) :
      Shifts recent (.write key entry) [] (recent.slots.put key (entry.stamped recent.nextStamp))
  /-- A key is written that was not. -/
  | written {key : String} {entry : Entry} (absent : recent.slots.get? key = none) :
      Shifts recent (.write key entry) (recent.slots.take recent.excess)
        (recent.slots.drop recent.excess ++ [(key, entry.stamped recent.nextStamp)])
  /-- An offer is declined for what is resident, which is read once more. -/
  | declined {key : String} {entry held : Entry} {now : Moment}
      (resident : recent.slots.get? key = some held) :
      Shifts recent (.offer key entry now) [] (recent.slots.put key (held.touch now))
  /-- An offer is taken. -/
  | taken {key : String} {entry : Entry} {now : Moment} (absent : recent.slots.get? key = none) :
      Shifts recent (.offer key entry now) (recent.slots.take recent.excess)
        (recent.slots.drop recent.excess ++ [(key, entry.stamped recent.nextStamp)])
  | found {key : String} {held : Entry} {now : Moment} (resident : recent.slots.get? key = some held) :
      Shifts recent (.fetch key now) [] (recent.slots.put key (held.touch now))
  | missed {key : String} {now : Moment} (absent : recent.slots.get? key = none) :
      Shifts recent (.fetch key now) [] recent.slots
  /-- A copy was read from what the slot still holds. -/
  | adopted {key : String} {copy held : Entry} (resident : recent.slots.get? key = some held)
      (current : held.stamp = copy.stamp) :
      Shifts recent (.adopt key copy) [] (recent.slots.set key (held.adopt copy))
  | refused {key : String} {copy : Entry}
      (stale : ∀ held, recent.slots.get? key = some held → held.stamp ≠ copy.stamp) :
      Shifts recent (.adopt key copy) [] recent.slots
  | erased {key : String} : Shifts recent (.erase key) [] (recent.slots.erase key)
  | asked {key : String} : Shifts recent (.contains key) [] recent.slots
  | cleared : Shifts recent .clear [] []

variable {recent : Recent} {key : String} {use : Use} {evicted slots : Keyed Entry}

theorem shifts (recent : Recent) (use : Use) :
    recent.Shifts use (recent.evicted use) (recent.after use).slots := by
  cases use with
  | write key entry =>
      cases resident : recent.slots.get? key with
      | some held =>
          have has : recent.slots.has key = true := by rw [Keyed.has, resident]; rfl
          rw [evicted, after, serve, write_resident has]
          exact .rewritten resident
      | none =>
          have has : recent.slots.has key = false := by rw [Keyed.has, resident]; rfl
          rw [evicted, after, serve, write_absent has]
          exact .written resident
  | offer key entry now =>
      cases resident : recent.slots.get? key with
      | some held =>
          rw [evicted, after, serve, offer_resident resident]
          exact .declined resident
      | none =>
          rw [evicted, after, serve, offer_absent resident]
          exact .taken resident
  | fetch key now =>
      cases resident : recent.slots.get? key with
      | some held =>
          simp only [evicted, after, serve, fetch, resident]
          exact .found resident
      | none =>
          simp only [evicted, after, serve, fetch, resident]
          exact .missed resident
  | adopt key copy =>
      cases resident : recent.slots.get? key with
      | some held =>
          by_cases current : held.stamp = copy.stamp
          · simp only [evicted, after, serve, adopt, resident, if_pos current]
            exact .adopted resident current
          · simp only [evicted, after, serve, adopt, resident, if_neg current]
            refine .refused fun other found => ?_
            rw [resident] at found
            cases found
            exact current
      | none =>
          simp only [evicted, after, serve, adopt, resident]
          refine .refused fun other found => ?_
          rw [resident] at found
          cases found
  | erase key => exact .erased
  | contains key => exact .asked
  | clear => exact .cleared

/-- A use takes at most one stamp, and the room stays as it is. -/
theorem frame_after (recent : Recent) (use : Use) :
    (recent.after use).nextStamp =
        (if use.stamps then recent.nextStamp + 1 else recent.nextStamp) ∧
      (recent.after use).capacity = recent.capacity := by
  cases use with
  | write key entry =>
      cases resident : recent.slots.has key with
      | true =>
          rw [after, serve, write_resident resident]
          exact ⟨rfl, rfl⟩
      | false =>
          rw [after, serve, write_absent resident]
          exact ⟨rfl, rfl⟩
  | offer key entry now =>
      cases resident : recent.slots.get? key with
      | some held =>
          rw [after, serve, offer_resident resident]
          exact ⟨rfl, rfl⟩
      | none =>
          rw [after, serve, offer_absent resident]
          exact ⟨rfl, rfl⟩
  | fetch key now =>
      rw [after, serve, fetch]
      split <;> exact ⟨rfl, rfl⟩
  | adopt key copy =>
      rw [after, serve, adopt]
      split
      · exact ⟨rfl, rfl⟩
      · split <;> exact ⟨rfl, rfl⟩
  | erase key => exact ⟨rfl, rfl⟩
  | contains key => exact ⟨rfl, rfl⟩
  | clear => exact ⟨rfl, rfl⟩

/-! ## Slots key by key -/

theorem Shifts.distinct (shifts : recent.Shifts use evicted slots)
    (distinct : recent.slots.keys.Nodup) : slots.keys.Nodup := by
  cases shifts with
  | rewritten resident => exact Keyed.nodup_put distinct _ _
  | written absent => exact (insertion_insert distinct absent _).distinct
  | declined resident => exact Keyed.nodup_put distinct _ _
  | taken absent => exact (insertion_insert distinct absent _).distinct
  | found resident => exact Keyed.nodup_put distinct _ _
  | missed absent => exact distinct
  | adopted resident current =>
      rw [Keyed.keys_set]
      exact distinct
  | refused stale => exact distinct
  | erased => exact Keyed.nodup_erase distinct _
  | asked => exact distinct
  | cleared => exact List.nodup_nil

theorem distinct_after (distinct : recent.slots.keys.Nodup) (use : Use) :
    (recent.after use).slots.keys.Nodup := (recent.shifts use).distinct distinct

end Recent

/-- The entry, with the hydration of a copy that was read from its slot. -/
def Entry.absorb (entry copy : Entry) : Entry :=
  if entry.stamp = copy.stamp then entry.adopt copy else entry

theorem Entry.stamp_absorb (entry copy : Entry) : (entry.absorb copy).stamp = entry.stamp := by
  rw [Entry.absorb]
  split <;> rfl

/-- What a use leaves in the slot of a key, if a write gets the given stamp. -/
def Use.leaves (key : String) (stamp : UInt64) (evicted : Bool) (slot : Option Entry) :
    Use → Option Entry
  | .write other entry =>
    if key = other then some (entry.stamped stamp) else if evicted then none else slot
  | .offer other entry now =>
    if key = other then some (slot.elim (entry.stamped stamp) fun held => held.touch now)
    else if evicted then none else slot
  | .fetch other now => if key = other then slot.map fun held => held.touch now else slot
  | .adopt other copy => if key = other then slot.map fun held => held.absorb copy else slot
  | .erase other => if key = other then none else slot
  | .contains _ => slot
  | .clear => none

namespace Recent

variable {recent : Recent} {key : String} {use : Use} {evicted slots : Keyed Entry}

/-- A slot after an insertion. -/
theorem get?_of_insertion {entry : Entry}
    (insertion : Insertion recent.slots key entry evicted slots) (asked : String) :
    slots.get? asked =
      if asked = key then some entry
      else if evicted.has asked then none else recent.slots.get? asked := by
  by_cases same : asked = key
  · rw [if_pos same, same, insertion.here]
  · rw [if_neg same]
    cases left : evicted.get? asked with
    | some held =>
        rw [(insertion.leaving asked held left).2, Keyed.has, left]
        rfl
    | none =>
        rw [insertion.staying asked same left, Keyed.has, left]
        rfl

/-- What a use leaves in the slot of any key. -/
theorem Shifts.get? (shifts : recent.Shifts use evicted slots) (distinct : recent.slots.keys.Nodup)
    (asked : String) : slots.get? asked =
      use.leaves asked recent.nextStamp (evicted.has asked) (recent.slots.get? asked) := by
  cases shifts with
  | rewritten resident => exact Keyed.get?_put _ _ _ _
  | written absent => exact get?_of_insertion (insertion_insert distinct absent _) asked
  | @declined key entry held now resident =>
      rw [Keyed.get?_put, Use.leaves]
      by_cases same : asked = key
      · rw [if_pos same, if_pos same, same, resident]
        rfl
      · rw [if_neg same, if_neg same]
        rfl
  | @taken key entry now absent =>
      refine (get?_of_insertion (insertion_insert distinct absent _) asked).trans ?_
      rw [Use.leaves]
      by_cases same : asked = key
      · rw [if_pos same, if_pos same, same, absent]
        rfl
      · rw [if_neg same, if_neg same]
        rfl
  | @found key held now resident =>
      rw [Keyed.get?_put, Use.leaves]
      by_cases same : asked = key
      · rw [if_pos same, if_pos same, same, resident]
        rfl
      · rw [if_neg same, if_neg same]
  | @missed key now absent =>
      rw [Use.leaves]
      by_cases same : asked = key
      · rw [if_pos same, same, absent]
        rfl
      · rw [if_neg same]
  | @adopted key copy held resident current =>
      rw [Keyed.get?_set, Use.leaves]
      by_cases same : asked = key
      · rw [if_pos same, if_pos same, same, resident, Option.map_some, Option.map_some, Entry.absorb,
          if_pos current]
      · rw [if_neg same, if_neg same]
  | @refused key copy stale =>
      rw [Use.leaves]
      by_cases same : asked = key
      · rw [if_pos same, same]
        cases held : recent.slots.get? key with
        | none => rfl
        | some entry => rw [Option.map_some, Entry.absorb, if_neg (stale entry held)]
      · rw [if_neg same]
  | erased => exact Keyed.get?_erase _ _ _
  | asked => rfl
  | cleared => rfl

theorem get?_after (distinct : recent.slots.keys.Nodup) (use : Use) (asked : String) :
    (recent.after use).slots.get? asked =
      use.leaves asked recent.nextStamp ((recent.evicted use).has asked) (recent.slots.get? asked) :=
  (recent.shifts use).get? distinct asked

/-- What a use makes of an entry that it does not displace. -/
theorem get?_kept {held : Entry} (distinct : recent.slots.keys.Nodup)
    (kept : recent.displaces key use = false) (found : recent.slots.get? key = some held) :
    (recent.after use).slots.get? key = some held ∨
      (∃ now, (recent.after use).slots.get? key = some (held.touch now)) ∨
      ∃ copy, use = .adopt key copy ∧ (recent.after use).slots.get? key = some (held.absorb copy) := by
  obtain ⟨stays, kept⟩ := Bool.or_eq_false_iff.1 kept
  have leaves := get?_after distinct use key
  rw [stays, found] at leaves
  rw [leaves]
  cases use with
  | write other entry =>
      have differs : ¬ key = other := by simpa using kept
      exact Or.inl (if_neg differs)
  | offer other entry now =>
      rw [Use.leaves]
      split
      · exact Or.inr (Or.inl ⟨now, rfl⟩)
      · exact Or.inl rfl
  | fetch other now =>
      rw [Use.leaves]
      split
      · exact Or.inr (Or.inl ⟨now, rfl⟩)
      · exact Or.inl rfl
  | adopt other copy =>
      rw [Use.leaves]
      split
      · rename_i same
        exact Or.inr (Or.inr ⟨copy, by rw [same], rfl⟩)
      · exact Or.inl rfl
  | erase other =>
      have differs : ¬ key = other := by simpa using kept
      exact Or.inl (if_neg differs)
  | contains other => exact Or.inl rfl
  | clear => cases kept

/-- The copy that a use gives out is what the slot of its key holds afterwards. -/
theorem get?_copy (distinct : recent.slots.keys.Nodup) {copy : Entry}
    (given : recent.copy? use = some (key, copy)) :
    (recent.after use).slots.get? key = some copy := by
  cases use with
  | fetch other now =>
      rw [get?_after distinct]
      rw [copy?, fetch] at given
      cases resident : recent.slots.get? other with
      | none =>
          rw [resident] at given
          cases given
      | some held =>
          rw [resident] at given
          cases given
          rw [Use.leaves, if_pos rfl, resident]
          rfl
  | offer other entry now =>
      rw [get?_after distinct]
      rw [copy?] at given
      cases resident : recent.slots.get? other with
      | none =>
          rw [offer_absent resident] at given
          cases given
          rw [Use.leaves, if_pos rfl, resident]
          rfl
      | some held =>
          rw [offer_resident resident] at given
          cases given
          rw [Use.leaves, if_pos rfl, resident]
          rfl
  | write other entry => cases given
  | adopt other copy => cases given
  | erase other => cases given
  | contains other => cases given
  | clear => cases given

/-! ## Runs -/

theorem through_append (recent : Recent) (before later : List Use) :
    recent.through (before ++ later) = (recent.through before).through later :=
  List.foldl_append

theorem distinct_through (distinct : recent.slots.keys.Nodup) (uses : List Use) :
    (recent.through uses).slots.keys.Nodup := by
  induction uses generalizing recent with
  | nil => exact distinct
  | cons use later induction => exact induction (distinct_after distinct use)

theorem distinct_empty (capacity : Nat) : (empty capacity).slots.keys.Nodup := List.nodup_nil

theorem capacity_through (recent : Recent) (uses : List Use) :
    (recent.through uses).capacity = recent.capacity := by
  induction uses generalizing recent with
  | nil => rfl
  | cons use later induction =>
      exact (induction (recent.after use)).trans (recent.frame_after use).2

theorem keeps_append (key : String) (recent : Recent) (before later : List Use) :
    keeps key recent (before ++ later) =
      (keeps key recent before && keeps key (recent.through before) later) := by
  induction before generalizing recent with
  | nil => exact (Bool.true_and _).symm
  | cons use before induction =>
      rw [List.cons_append, keeps, keeps, induction, Bool.and_assoc]
      rfl

/-- A use of a run that keeps a slot does not displace it. -/
theorem kept_of_keeps {uses before rest : List Use} (kept : keeps key recent uses = true)
    (parts : uses = before ++ use :: rest) : (recent.through before).displaces key use = false := by
  rw [parts, keeps_append, Bool.and_eq_true_iff, keeps, Bool.and_eq_true_iff] at kept
  simpa using kept.2.1

end Recent

end TieredCache
