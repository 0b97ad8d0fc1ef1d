import TieredCache.Proofs.Recent
import TieredCache.Uses

/-!
# Tier 1 without clocks

The clock is read only to note when an entry was last read. To forget these readings before a use of tier 1
or after it comes to the same, so tier 1 does everything else alike whatever the clock says.
-/

namespace TieredCache

/-! ## Values under a function -/

namespace Keyed

variable {α β : Type} (change : α → β)

/-- Puts every value through a function. -/
def mapValues (keyed : Keyed α) : Keyed β := keyed.map fun pair => (pair.1, change pair.2)

theorem get?_mapValues (keyed : Keyed α) (key : String) :
    (keyed.mapValues change).get? key = (keyed.get? key).map change := by
  induction keyed with
  | nil => rfl
  | cons first rest induction =>
      rw [mapValues, List.map_cons, get?_cons, get?_cons]
      split
      · rfl
      · exact induction

theorem has_mapValues (keyed : Keyed α) (key : String) :
    (keyed.mapValues change).has key = keyed.has key := by
  rw [has, get?_mapValues, Option.isSome_map, has]

theorem mapValues_append (left right : Keyed α) :
    mapValues change (left ++ right) = left.mapValues change ++ right.mapValues change :=
  List.map_append

theorem erase_mapValues (keyed : Keyed α) (key : String) :
    (keyed.mapValues change).erase key = (keyed.erase key).mapValues change := by
  rw [mapValues, erase, List.filter_map]
  rfl

theorem put_mapValues (keyed : Keyed α) (key : String) (value : α) :
    (keyed.mapValues change).put key (change value) = (keyed.put key value).mapValues change := by
  rw [put, put, erase_mapValues, mapValues_append]
  rfl

theorem set_mapValues (keyed : Keyed α) (key : String) (value : α) :
    (keyed.mapValues change).set key (change value) = (keyed.set key value).mapValues change := by
  rw [mapValues, set, set, mapValues, List.map_map, List.map_map]
  refine List.map_congr_left fun pair _ => ?_
  simp only [Function.comp]
  split <;> rfl

end Keyed

/-! ## Readings that are forgotten -/

/-- The entry without the moment of its last read. -/
def Entry.timeless (entry : Entry) : Entry := { entry with accessed := .epoch }

/-- A use without the readings of the clock in it. -/
def Use.timeless : Use → Use
  | .write key entry => .write key entry.timeless
  | .offer key entry _ => .offer key entry.timeless .epoch
  | .fetch key _ => .fetch key .epoch
  | .adopt key copy => .adopt key copy.timeless
  | .erase key => .erase key
  | .contains key => .contains key
  | .clear => .clear

namespace Recent

/-- Tier 1 without the moments of the last reads. -/
def timeless (recent : Recent) : Recent :=
  { recent with slots := recent.slots.mapValues Entry.timeless }

theorem get?_timeless (recent : Recent) (key : String) :
    recent.timeless.slots.get? key = (recent.slots.get? key).map Entry.timeless :=
  Keyed.get?_mapValues Entry.timeless recent.slots key

theorem contains_timeless (recent : Recent) (key : String) :
    recent.timeless.contains key = recent.contains key :=
  Keyed.has_mapValues Entry.timeless recent.slots key

theorem insert_timeless (recent : Recent) (key : String) (entry : Entry) :
    recent.timeless.insert key entry.timeless =
      ((recent.insert key entry).1.mapValues Entry.timeless, (recent.insert key entry).2.timeless) := by
  have excess : recent.timeless.excess = recent.excess := by
    simp only [Recent.excess, size, timeless, Keyed.mapValues, List.length_map]
  rw [insert, excess]
  simp only [insert, timeless, Keyed.mapValues, List.map_take, List.map_append, List.map_drop, List.map_cons,
    List.map_nil]

theorem fetch_timeless (recent : Recent) (key : String) (now : Moment) :
    recent.timeless.fetch key .epoch =
      ((recent.fetch key now).1.map Entry.timeless, (recent.fetch key now).2.timeless) := by
  simp only [fetch, get?_timeless]
  cases recent.slots.get? key with
  | none => rfl
  | some entry =>
      have put := Keyed.put_mapValues Entry.timeless recent.slots key (entry.touch now)
      exact Prod.ext rfl (congrArg (fun slots => { recent with slots := slots }) put)

/-- To forget the clock before a use or after it comes to the same, for what it evicts and for what it
leaves. -/
theorem serve_timeless (recent : Recent) (use : Use) :
    recent.timeless.serve use.timeless =
      ((recent.serve use).1.mapValues Entry.timeless, (recent.serve use).2.timeless) := by
  cases use with
  | write key entry =>
      simp only [Use.timeless, serve]
      cases resident : recent.slots.has key with
      | true =>
          rw [write_resident ((recent.contains_timeless key).trans resident), write_resident resident]
          have put := Keyed.put_mapValues Entry.timeless recent.slots key (entry.stamped recent.nextStamp)
          exact Prod.ext rfl (congrArg (fun slots => { recent.advanced with slots := slots }) put)
      | false =>
          rw [write_absent ((recent.contains_timeless key).trans resident), write_absent resident]
          exact recent.advanced.insert_timeless key (entry.stamped recent.nextStamp)
  | offer key entry now =>
      simp only [Use.timeless, serve]
      cases resident : recent.slots.get? key with
      | some held =>
          rw [offer_resident resident, offer_resident (by rw [get?_timeless, resident]; rfl)]
          have put := Keyed.put_mapValues Entry.timeless recent.slots key (held.touch now)
          exact Prod.ext rfl (congrArg (fun slots => { recent.advanced with slots := slots }) put)
      | none =>
          rw [offer_absent resident, offer_absent (by rw [get?_timeless, resident]; rfl)]
          exact recent.advanced.insert_timeless key (entry.stamped recent.nextStamp)
  | fetch key now =>
      exact congrArg (fun fetched => (([] : Keyed Entry), fetched.2)) (recent.fetch_timeless key now)
  | adopt key copy =>
      simp only [Use.timeless, serve, adopt, get?_timeless]
      cases recent.slots.get? key with
      | none => rfl
      | some held =>
          have stamps : held.timeless.stamp = copy.timeless.stamp ↔ held.stamp = copy.stamp := Iff.rfl
          have set := Keyed.set_mapValues Entry.timeless recent.slots key (held.adopt copy)
          simp only [Option.map_some, stamps]
          split
          · exact Prod.ext rfl (congrArg (fun slots => { recent with slots := slots }) set)
          · rfl
  | erase key =>
      have erase := Keyed.erase_mapValues Entry.timeless recent.slots key
      exact Prod.ext rfl (congrArg (fun slots => { recent with slots := slots }) erase)
  | contains key => rfl
  | clear => rfl

/-- Tiers that differ in readings of the clock alone still do so after uses that differ in no more. -/
theorem after_congr {left right : Recent} {use other : Use} (same : left.timeless = right.timeless)
    (alike : use.timeless = other.timeless) : (left.after use).timeless = (right.after other).timeless := by
  have served := left.serve_timeless use
  rw [same, alike, right.serve_timeless other] at served
  exact (congrArg Prod.snd served).symm

end Recent

end TieredCache
