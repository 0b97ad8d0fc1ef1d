import TieredCache.Proofs.Recent.Order

/-!
# What becomes of the entries of tier 1

Every entry that is written or offered is resident in the end or has left in one way: it was spilled,
replaced, removed, cleared, or declined when it was offered. Reads and hydrations change an entry in its
place, so it is recognized by what they leave alone, the stamp of its write included.
-/

namespace TieredCache

open scoped List

/-- What reads and hydrations leave alone in an entry. -/
def Entry.imprint (entry : Entry) : Entry :=
  { entry with accessed := .epoch, count := 0, artifacts := [], hydrated := false }

namespace Entry

variable {entry copy : Entry}

theorem imprint_touch (now : Moment) : (entry.touch now).imprint = entry.imprint := rfl

theorem imprint_adopt : (entry.adopt copy).imprint = entry.imprint := rfl

end Entry

/-- How an entry leaves tier 1. -/
inductive Fate where
  /-- It had to leave for a new key, and was handed out. -/
  | spilled
  /-- Its key was written anew. -/
  | replaced
  /-- Its key was taken away. -/
  | removed
  /-- All keys were taken away. -/
  | cleared
  /-- It was offered, and the key was resident. -/
  | declined
  deriving DecidableEq, Repr

namespace Recent

/-- The entry that a use stores or offers, as it is marked. -/
def written (recent : Recent) : Use → Keyed Entry
  | .write key entry => [(key, entry.stamped recent.nextStamp)]
  | .offer key entry _ => [(key, entry.stamped recent.nextStamp)]
  | _ => []

/-- The entries that a use parts with, apart from those that it evicts. -/
def dropped (recent : Recent) : Use → List (Fate × String × Entry)
  | .write key _ => (recent.slots.get? key).toList.map fun held => (.replaced, key, held)
  | .offer key entry _ =>
    (recent.slots.get? key).toList.map fun _ => (.declined, key, entry.stamped recent.nextStamp)
  | .erase key => (recent.slots.get? key).toList.map fun held => (.removed, key, held)
  | .clear => recent.slots.map fun pair => (.cleared, pair)
  | _ => []

/-- The entries that a use parts with. -/
def partings (recent : Recent) (use : Use) : List (Fate × String × Entry) :=
  (recent.evicted use).map (fun pair => (.spilled, pair)) ++ recent.dropped use

/-- Keys and entries, as far as reads and hydrations leave them alone. -/
def imprints (pairs : Keyed Entry) : Keyed Entry := pairs.map fun pair => (pair.1, pair.2.imprint)

theorem imprints_append (left right : Keyed Entry) :
    imprints (left ++ right) = imprints left ++ imprints right := List.map_append

variable {recent : Recent} {use : Use} {evicted slots : Keyed Entry} {key : String}
  {entry held : Entry}

/-! ## Slots that change in their place -/

/-- The other slots and a resident one. -/
theorem perm_erase_append (distinct : slots.keys.Nodup) (resident : slots.get? key = some held) :
    slots.Perm (slots.erase key ++ [(key, held)]) := by
  induction slots with
  | nil => cases resident
  | cons first rest induction =>
      obtain ⟨other, value⟩ := first
      obtain ⟨new, distinct⟩ := List.nodup_cons.1 distinct
      rw [Keyed.get?_cons] at resident
      by_cases same : key = other
      · rw [if_pos same] at resident
        have others : Keyed.erase ((other, value) :: rest) key = rest := by
          rw [Keyed.erase, List.filter_cons_of_neg (by simp [same]), same]
          exact Keyed.erase_of_not_mem new
        rw [others, same, ← Option.some.inj resident]
        exact (List.perm_append_singleton (other, value) rest).symm
      · rw [if_neg same] at resident
        have others : Keyed.erase ((other, value) :: rest) key =
            (other, value) :: Keyed.erase rest key :=
          List.filter_cons_of_pos (by simpa using Ne.symm same)
        rw [others]
        exact (induction distinct resident).cons (other, value)

/-- A slot that is put anew with the same imprint. -/
theorem imprints_put_perm (distinct : slots.keys.Nodup) (resident : slots.get? key = some held)
    (same : entry.imprint = held.imprint) :
    (imprints slots).Perm (imprints (slots.put key entry)) := by
  have moved : imprints (slots.put key entry) = imprints (slots.erase key ++ [(key, held)]) := by
    rw [Keyed.put, imprints_append, imprints_append, imprints, imprints, imprints, List.map_singleton,
      List.map_singleton, same]
  rw [moved]
  exact (perm_erase_append distinct resident).map _

/-- A slot that is set with the same imprint. -/
theorem imprints_set (distinct : slots.keys.Nodup) (resident : slots.get? key = some held)
    (same : entry.imprint = held.imprint) : imprints (slots.set key entry) = imprints slots := by
  rw [imprints, imprints, Keyed.set, List.map_map]
  refine List.map_congr_left fun pair found => ?_
  rw [Function.comp_apply]
  split
  · rename_i here
    have value := Keyed.get?_of_mem distinct found
    rw [here, resident] at value
    rw [here, same, Option.some.inj value]
  · rfl

/-! ## Accounts -/

/-- What is left after an eviction, the new slot, and what was evicted. -/
theorem perm_insert (slots : Keyed Entry) (excess : Nat) (pair : String × Entry) :
    (slots ++ [pair]).Perm (slots.drop excess ++ [pair] ++ slots.take excess) := by
  have parts : (slots.take excess ++ slots.drop excess ++ [pair]).Perm
      (slots.drop excess ++ [pair] ++ slots.take excess) := by
    rw [List.append_assoc]
    exact List.perm_append_comm
  rwa [List.take_append_drop] at parts

/-- What is there before a use and what it writes is there afterwards or parts with tier 1. -/
theorem Shifts.imprints (shifts : recent.Shifts use evicted slots)
    (distinct : recent.slots.keys.Nodup) :
    (imprints (recent.slots ++ recent.written use)).Perm
      (imprints (slots ++ (evicted ++ (recent.dropped use).map Prod.snd))) := by
  cases shifts with
  | @rewritten key entry held resident =>
      rw [dropped, resident]
      have parts := (perm_erase_append distinct resident).append_right
        [(key, entry.stamped recent.nextStamp)]
      refine (parts.trans ?_).map _
      rw [Keyed.put, List.append_assoc, List.append_assoc]
      exact (List.Perm.swap _ _ []).append_left _
  | @written key entry absent =>
      rw [dropped, absent]
      refine ((perm_insert recent.slots recent.excess _).trans (List.Perm.of_eq ?_)).map _
      exact (congrArg _ (List.append_nil _)).symm
  | @declined key entry held now resident =>
      rw [dropped, resident, imprints_append, imprints_append]
      exact (imprints_put_perm distinct resident (Entry.imprint_touch now)).append_right _
  | @taken key entry now absent =>
      rw [dropped, absent]
      refine ((perm_insert recent.slots recent.excess _).trans (List.Perm.of_eq ?_)).map _
      exact (congrArg _ (List.append_nil _)).symm
  | @found key held now resident =>
      rw [imprints_append, imprints_append]
      exact (imprints_put_perm distinct resident (Entry.imprint_touch now)).append_right _
  | missed absent => exact List.Perm.refl _
  | adopted resident current =>
      rw [imprints_append, imprints_append, imprints_set distinct resident Entry.imprint_adopt]
      exact List.Perm.refl _
  | refused stale => exact List.Perm.refl _
  | @erased key =>
      rw [dropped]
      cases resident : recent.slots.get? key with
      | none =>
          rw [Keyed.erase_of_not_mem (Keyed.get?_eq_none_iff.1 resident)]
          exact List.Perm.refl _
      | some held =>
          have parts : (recent.slots ++ []).Perm (recent.slots.erase key ++ [(key, held)]) := by
            rw [List.append_nil]
            exact perm_erase_append distinct resident
          exact parts.map _
  | asked => exact List.Perm.refl _
  | cleared =>
      have all : (recent.dropped .clear).map Prod.snd = recent.slots := by
        rw [dropped, List.map_map]
        exact List.map_id _
      rw [all]
      exact (List.Perm.of_eq (List.append_nil recent.slots)).map _

theorem map_snd_partings (recent : Recent) (use : Use) :
    (recent.partings use).map Prod.snd =
      recent.evicted use ++ (recent.dropped use).map Prod.snd := by
  rw [partings, List.map_append, List.map_map]
  exact congrArg (· ++ _) (List.map_id _)

/-- What a run writes is resident in the end or has parted with tier 1 on the way. -/
theorem imprints_through (distinct : recent.slots.keys.Nodup) (uses : List Use) :
    (imprints (recent.slots ++ recent.chronicle written uses)).Perm
      (imprints ((recent.through uses).slots ++ (recent.chronicle partings uses).map Prod.snd)) := by
  induction uses generalizing recent with
  | nil => exact List.Perm.refl _
  | cons use later induction =>
      have first := (recent.shifts use).imprints distinct
      have rest := induction (distinct_after distinct use)
      rw [← map_snd_partings] at first
      rw [chronicle, chronicle, List.map_append]
      generalize (recent.partings use).map Prod.snd = parted at first ⊢
      generalize (chronicle partings (recent.after use) later).map Prod.snd = parting at rest ⊢
      generalize chronicle written (recent.after use) later = writes at rest ⊢
      simp only [imprints_append] at first rest ⊢
      -- What this use parts with goes behind what the later ones write, and then behind what they part with.
      calc imprints recent.slots ++ (imprints (recent.written use) ++ imprints writes)
        _ = imprints recent.slots ++ imprints (recent.written use) ++ imprints writes :=
            (List.append_assoc _ _ _).symm
        _ ~ imprints (recent.after use).slots ++ imprints parted ++ imprints writes :=
            first.append_right _
        _ ~ imprints (recent.after use).slots ++ imprints writes ++ imprints parted := by
            rw [List.append_assoc, List.append_assoc]
            exact List.perm_append_comm.append_left _
        _ ~ imprints (recent.through (use :: later)).slots ++ imprints parting ++ imprints parted :=
            rest.append_right _
        _ ~ imprints (recent.through (use :: later)).slots ++ (imprints parted ++ imprints parting) := by
            rw [List.append_assoc]
            exact List.perm_append_comm.append_left _

/-! ## Runs from the start -/

/-- What a run has made of an empty tier 1, and what one more use would do to it. -/
structure Exact (capacity : Nat) (uses : List Use) (recent : Recent) : Prop where
  distinct : recent.keys.Nodup
  resident : ∀ key, key ∈ recent.keys ↔ recent.contains key = true
  /-- The keys stand in the order of their last touch. -/
  ordered : recent.keys =
    ((empty capacity).chronicle touched uses).dedup.filter fun key => recent.contains key
  bounded : recent.size ≤ max capacity 1
  room : recent.capacity = capacity
  evicts : ∀ use, recent.EvictsFront use
  /-- An offer of a resident key reads the resident once more and does nothing else. -/
  declines : ∀ key held, recent.slots.get? key = some held → ∀ entry now,
    recent.evicted (.offer key entry now) = [] ∧
      (recent.after (.offer key entry now)).capacity = capacity ∧
      (recent.after (.offer key entry now)).keys =
        (recent.keys.filter fun other => other != key) ++ [key] ∧
      ∀ asked, (recent.after (.offer key entry now)).slots.get? asked =
        if asked = key then some { held with accessed := now, count := held.count + 1 }
        else recent.slots.get? asked
  /-- What was written or offered is resident, or has parted with tier 1 once. -/
  accounted : (imprints ((empty capacity).chronicle written uses)).Perm
    (imprints (recent.slots ++ ((empty capacity).chronicle partings uses).map Prod.snd))

/-- Tier 1 keeps what was touched last, in that order, and loses nothing. -/
theorem exact_through (capacity : Nat) (uses : List Use) :
    Exact capacity uses ((empty capacity).through uses) := by
  have distinct := distinct_through (distinct_empty capacity) uses
  have room : ((empty capacity).through uses).capacity = capacity := capacity_through _ uses
  have size : ((empty capacity).through uses).size ≤ max capacity 1 :=
    size_through (Nat.zero_le _) uses
  have order : ((empty capacity).through uses).keys.Sublist
      ((empty capacity).chronicle touched uses).dedup :=
    @keys_through_sublist (empty capacity) [] (List.Sublist.refl []) uses
  have accounts := imprints_through (distinct_empty capacity) uses
  generalize (empty capacity).through uses = recent at distinct room size order accounts ⊢
  have resident : ∀ key, key ∈ recent.keys ↔ recent.contains key = true := fun key =>
    (Keyed.has_iff_mem_keys recent.slots key).symm
  refine ⟨distinct, resident, ?_, size, room, recent.evictsFront, fun key held found entry now => ?_,
    accounts⟩
  · refine (eq_filter_of_sublist order (List.nodup_dedup _)).trans (List.filter_congr fun key _ => ?_)
    rw [Bool.eq_iff_iff, decide_eq_true_iff]
    exact resident key
  · have nothing : recent.evicted (.offer key entry now) = [] := by
      rw [evicted, serve, offer_resident found]
    refine ⟨nothing, (recent.frame_after _).2.trans room, ?_, fun asked => ?_⟩
    · rw [after, serve, offer_resident found]
      exact Keyed.keys_put recent.slots key (held.touch now)
    · rw [get?_after distinct, nothing, Use.leaves]
      by_cases same : asked = key
      · rw [if_pos same, if_pos same, same, found]
        rfl
      · rw [if_neg same, if_neg same]
        rfl

/-- With room for two, reading the first key makes the second one leave for a third. The offer of a key
that is resident leaves the account in balance. -/
theorem exact_through_third :
    let entry := Entry.new "k" [] .epoch
    let uses : List Use := [.write "a" entry, .write "b" entry, .fetch "a" .epoch,
      .write "c" entry, .offer "a" entry .epoch]
    ((empty 2).through uses).keys = ["c", "a"] ∧
      ((empty 2).chronicle partings uses).map (fun parting => (parting.1, parting.2.1)) =
        [(.spilled, "b"), (.declined, "a")] := by
  intro entry uses
  have exact := exact_through 2 uses
  refine ⟨exact.ordered.trans ?_, ?_⟩
  · decide +kernel
  · decide +kernel

end Recent

end TieredCache
