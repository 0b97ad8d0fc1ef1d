import TieredCache.Entry.Record
import TieredCache.Proofs.Recent.Uses

/-!
# Stamps

As long as a word counts the writes, no stamp is used twice: the stamps of the slots are distinct, none
is zero and none is ahead of the writes. A slot therefore has the stamp of a copy exactly as long as it
holds what the copy was read from.
-/

namespace TieredCache

namespace Recent

variable {recent : Recent} {use : Use} {evicted slots : Keyed Entry} {key asked : String}
  {stamp : UInt64} {count : Nat}

/-! ## The stamp of a slot -/

/-- The slot of a key has a stamp. -/
def Bears (recent : Recent) (key : String) (stamp : UInt64) : Prop :=
  ∃ held, recent.slots.get? key = some held ∧ held.stamp = stamp

/-- What a use leaves in a slot either has the stamp that the use takes, and its key is the key of the
use, or it has the stamp that was there. -/
theorem bears_after (distinct : recent.slots.keys.Nodup)
    (bears : (recent.after use).Bears asked stamp) :
    (use.stamps = true ∧ stamp = recent.nextStamp ∧
        ∃ entry, use = .write asked entry ∨ ∃ now, use = .offer asked entry now) ∨
      recent.Bears asked stamp := by
  obtain ⟨held, found, rfl⟩ := bears
  rw [get?_after distinct] at found
  cases use with
  | write key entry =>
      rw [Use.leaves] at found
      split at found
      · rename_i same
        cases found
        exact Or.inl ⟨rfl, rfl, entry, Or.inl (by rw [same])⟩
      · split at found
        · cases found
        · exact Or.inr ⟨held, found, rfl⟩
  | offer key entry now =>
      rw [Use.leaves] at found
      split at found
      · rename_i same
        cases old : recent.slots.get? asked with
        | none =>
            rw [old] at found
            cases found
            exact Or.inl ⟨rfl, rfl, entry, Or.inr ⟨now, by rw [same]⟩⟩
        | some resident =>
            rw [old] at found
            cases found
            exact Or.inr ⟨resident, old, rfl⟩
      · split at found
        · cases found
        · exact Or.inr ⟨held, found, rfl⟩
  | fetch key now =>
      rw [Use.leaves] at found
      split at found
      · obtain ⟨resident, old, rfl⟩ := Option.map_eq_some_iff.1 found
        exact Or.inr ⟨resident, old, rfl⟩
      · exact Or.inr ⟨held, found, rfl⟩
  | adopt key copy =>
      rw [Use.leaves] at found
      split at found
      · obtain ⟨resident, old, rfl⟩ := Option.map_eq_some_iff.1 found
        exact Or.inr ⟨resident, old, (resident.stamp_absorb copy).symm⟩
      · exact Or.inr ⟨held, found, rfl⟩
  | erase key =>
      rw [Use.leaves] at found
      split at found
      · cases found
      · exact Or.inr ⟨held, found, rfl⟩
  | contains key => exact Or.inr ⟨held, found, rfl⟩
  | clear => cases found

/-- A slot keeps its stamp through a use that does not displace it. -/
theorem Bears.after (distinct : recent.slots.keys.Nodup) (bears : recent.Bears key stamp)
    (kept : recent.displaces key use = false) : (recent.after use).Bears key stamp := by
  obtain ⟨held, found, rfl⟩ := bears
  rcases get?_kept distinct kept found with same | ⟨now, read⟩ | ⟨copy, _, stored⟩
  · exact ⟨held, same, rfl⟩
  · exact ⟨held.touch now, read, rfl⟩
  · exact ⟨held.absorb copy, stored, held.stamp_absorb copy⟩

/-- A key that is evicted is not resident any more. -/
theorem Shifts.get?_evicted (shifts : recent.Shifts use evicted slots)
    (distinct : recent.slots.keys.Nodup) (leaves : evicted.has key = true) :
    slots.get? key = none := by
  obtain ⟨held, found⟩ := Option.isSome_iff_exists.1 leaves
  cases shifts with
  | written absent => exact ((insertion_insert distinct absent _).leaving key held found).2
  | taken absent => exact ((insertion_insert distinct absent _).leaving key held found).2
  | rewritten resident => cases found
  | declined resident => cases found
  | found resident => cases found
  | missed absent => cases found
  | adopted resident current => cases found
  | refused stale => cases found
  | erased => cases found
  | asked => cases found
  | cleared => cases found

/-- A slot that is displaced is empty afterwards, or has the stamp that the use takes. -/
theorem Bears.displaced (distinct : recent.slots.keys.Nodup)
    (gone : recent.displaces key use = true) (bears : (recent.after use).Bears key stamp) :
    use.stamps = true ∧ stamp = recent.nextStamp := by
  obtain ⟨held, found, rfl⟩ := bears
  rcases Bool.or_eq_true_iff.1 gone with evicted | gone
  · rw [(recent.shifts use).get?_evicted distinct evicted] at found
    cases found
  · rw [get?_after distinct] at found
    cases use with
    | write other entry =>
        rw [Use.leaves, if_pos (eq_of_beq gone)] at found
        cases found
        exact ⟨rfl, rfl⟩
    | erase other =>
        rw [Use.leaves, if_pos (eq_of_beq gone)] at found
        cases found
    | clear => cases found
    | offer other entry now => cases gone
    | fetch other now => cases gone
    | adopt other copy => cases gone
    | contains other => cases gone

/-! ## Stamps in use -/

/-- A number of stamps have been given out. The slots have distinct ones among them. -/
structure Stamped (count : Nat) (recent : Recent) : Prop where
  distinct : recent.slots.keys.Nodup
  next : recent.nextStamp = UInt64.ofNat (count + 1)
  issued : ∀ {key stamp}, recent.Bears key stamp → 0 < stamp.toNat ∧ stamp.toNat ≤ count
  apart : ∀ {key other stamp}, recent.Bears key stamp → recent.Bears other stamp → key = other

theorem stamped_empty (capacity : Nat) : (empty capacity).Stamped 0 where
  distinct := distinct_empty capacity
  next := rfl
  issued := by
    rintro key stamp ⟨held, found, -⟩
    cases found
  apart := by
    rintro key other stamp ⟨held, found, -⟩
    cases found

namespace Stamped

theorem nextStamp_toNat (stamped : recent.Stamped count) (few : count + 1 < 2 ^ 64) :
    recent.nextStamp.toNat = count + 1 := by
  rw [stamped.next]
  exact UInt64.toNat_ofNat_of_lt few

/-- The next stamp is none of those in use. -/
theorem fresh (stamped : recent.Stamped count) (few : count + 1 < 2 ^ 64)
    (given : stamp.toNat ≤ count) : stamp ≠ recent.nextStamp := by
  rintro rfl
  rw [stamped.nextStamp_toNat few] at given
  omega

/-- A use that takes a stamp takes a new one, and one that takes none leaves those there are. -/
theorem after (stamped : recent.Stamped count) (use : Use)
    (few : count + (if use.stamps then 1 else 0) < 2 ^ 64) :
    (recent.after use).Stamped (count + if use.stamps then 1 else 0) where
  distinct := distinct_after stamped.distinct use
  next := by
    rw [(recent.frame_after use).1, stamped.next]
    split
    · exact (UInt64.ofNat_add (count + 1) 1).symm
    · rfl
  issued := by
    intro key stamp bears
    rcases bears_after stamped.distinct bears with ⟨stamps, rfl, _⟩ | old
    · rw [if_pos stamps] at few ⊢
      rw [stamped.nextStamp_toNat few]
      omega
    · have issued := stamped.issued old
      omega
  apart := by
    intro key other stamp bears rival
    rcases bears_after stamped.distinct bears with ⟨stamps, new, entry, this⟩ | old
    · rcases bears_after stamped.distinct rival with ⟨_, _, rest⟩ | old
      · obtain ⟨_, that⟩ := rest
        rcases this with rfl | ⟨now, rfl⟩
        · rcases that with same | ⟨_, same⟩
          · cases same
            rfl
          · cases same
        · rcases that with same | ⟨_, same⟩
          · cases same
          · cases same
            rfl
      · rw [if_pos stamps] at few
        exact absurd new (stamped.fresh few (stamped.issued old).2)
    · rcases bears_after stamped.distinct rival with ⟨stamps, new, _⟩ | rival
      · rw [if_pos stamps] at few
        exact absurd new (stamped.fresh few (stamped.issued old).2)
      · exact stamped.apart old rival

theorem through (stamped : recent.Stamped count) (uses : List Use)
    (few : count + uses.countP Use.stamps < 2 ^ 64) :
    (recent.through uses).Stamped (count + uses.countP Use.stamps) := by
  induction uses generalizing recent count with
  | nil => exact stamped
  | cons use later induction =>
      rw [List.countP_cons] at few ⊢
      have next := stamped.after use (by omega)
      have rest := induction next (by omega)
      rw [Nat.add_comm (later.countP Use.stamps), ← Nat.add_assoc]
      exact rest

/-- A stamp that was given out and that no slot has any more comes back no more. -/
theorem gone_after (stamped : recent.Stamped count)
    (few : count + (if use.stamps then 1 else 0) < 2 ^ 64) (given : stamp.toNat ≤ count)
    (gone : ∀ key, ¬ recent.Bears key stamp) (asked : String) :
    ¬ (recent.after use).Bears asked stamp := by
  intro bears
  rcases bears_after stamped.distinct bears with ⟨stamps, new, _⟩ | old
  · rw [if_pos stamps] at few
    exact stamped.fresh few given new
  · exact gone asked old

theorem gone_through (stamped : recent.Stamped count) (uses : List Use)
    (few : count + uses.countP Use.stamps < 2 ^ 64) (given : stamp.toNat ≤ count)
    (gone : ∀ key, ¬ recent.Bears key stamp) (asked : String) :
    ¬ (recent.through uses).Bears asked stamp := by
  induction uses generalizing recent count with
  | nil => exact gone asked
  | cons use later induction =>
      rw [List.countP_cons] at few
      exact induction (stamped.after use (by omega)) (by omega) (by omega)
        (stamped.gone_after (by omega) given gone)

/-- The slot of a key has its stamp as long as no use displaces it, and from then on no slot has. -/
theorem bears_through (stamped : recent.Stamped count) (uses : List Use)
    (few : count + uses.countP Use.stamps < 2 ^ 64) (bears : recent.Bears key stamp)
    (asked : String) :
    (recent.through uses).Bears asked stamp ↔ asked = key ∧ keeps key recent uses = true := by
  induction uses generalizing recent count with
  | nil =>
      refine ⟨fun rival => ⟨stamped.apart rival bears, rfl⟩, ?_⟩
      rintro ⟨rfl, -⟩
      exact bears
  | cons use later induction =>
      rw [List.countP_cons] at few
      have next := stamped.after use (by omega)
      have given := (stamped.issued bears).2
      cases displaced : recent.displaces key use with
      | false =>
          rw [keeps, displaced, Bool.not_false, Bool.true_and]
          exact induction next (by omega) (bears.after stamped.distinct displaced)
      | true =>
          -- From here on no slot has the stamp, so the induction that carries it is of no use.
          have gone : ∀ other, ¬ (recent.after use).Bears other stamp := by
            intro other rival
            rcases bears_after stamped.distinct rival with ⟨stamps, new, _⟩ | old
            · rw [if_pos stamps] at few
              exact stamped.fresh (by omega) given new
            · rw [stamped.apart old bears] at rival
              obtain ⟨stamps, new⟩ := rival.displaced stamped.distinct displaced
              rw [if_pos stamps] at few
              exact stamped.fresh (by omega) given new
          rw [keeps, displaced]
          refine iff_of_false ?_ (by simp)
          exact next.gone_through later (by omega) (by omega) gone asked

end Stamped

/-! ## Copies -/

/-- The hydration of a copy is taken over exactly if the slot has its stamp. -/
theorem adopt_iff (copy : Entry) :
    (recent.adopt asked copy).1 = true ↔ recent.Bears asked copy.stamp := by
  rw [adopt, Bears]
  cases recent.slots.get? asked with
  | none => simp
  | some held => by_cases same : held.stamp = copy.stamp <;> simp [same]

/-- A copy that is refused changes nothing. -/
theorem adopt_refused {copy : Entry} (refused : (recent.adopt asked copy).1 = false) :
    (recent.adopt asked copy).2 = recent := by
  rw [adopt] at refused ⊢
  split
  · rfl
  · rename_i held resident
    split
    · rename_i current
      rw [resident] at refused
      simp only [if_pos current] at refused
      cases refused
    · rfl

/-- The slots of tier 1, with the hydration of a copy under one key. -/
def hydrating (recent : Recent) (key : String) (copy : Entry) : Recent :=
  { recent with slots := recent.slots.map fun pair =>
      if pair.1 = key then
        (key, { pair.2 with artifacts := copy.artifacts, hydrated := copy.hydrated })
      else pair }

/-- A copy that is accepted changes the artifacts and the flag of its slot. -/
theorem adopt_accepted (distinct : recent.slots.keys.Nodup) {copy : Entry}
    (accepted : (recent.adopt asked copy).1 = true) :
    (recent.adopt asked copy).2 = recent.hydrating asked copy := by
  obtain ⟨held, resident, current⟩ := (adopt_iff copy).1 accepted
  have slots : recent.slots.set asked (held.adopt copy) = (recent.hydrating asked copy).slots := by
    refine List.map_congr_left fun pair found => ?_
    by_cases here : pair.1 = asked
    · have value := Keyed.get?_of_mem distinct found
      rw [here, resident] at value
      rw [if_pos here, if_pos here, ← Option.some.inj value]
      rfl
    · rw [if_neg here, if_neg here]
  rw [adopt, resident]
  simp only [if_pos current, slots]
  rfl

end Recent

/-- The entry has the stamp of one that was just made, or that was read from a record. -/
def Entry.Foreign (entry : Entry) : Prop :=
  (∃ key paths now, entry.stamp = (Entry.new key paths now).stamp) ∨
    ∃ bytes origin, Entry.read? bytes = some origin ∧ entry.stamp = origin.stamp

theorem Entry.stamp_of_read? {bytes : Bytes} {entry : Entry} (read : Entry.read? bytes = some entry) :
    entry.stamp = 0 := by
  obtain ⟨outline, _, decoded⟩ := Option.bind_eq_some_iff.1 read
  rw [Entry.ofOutline?] at decoded
  split at decoded
  · simp only [Option.bind_eq_bind, Option.bind_eq_some_iff] at decoded
    obtain ⟨_, _, _, _, _, _, _, _, _, _, _, _, _, _, same⟩ := decoded
    cases same
    rfl
  · cases decoded

theorem Entry.Foreign.stamp {entry : Entry} (foreign : entry.Foreign) : entry.stamp = 0 := by
  rcases foreign with ⟨key, paths, now, same⟩ | ⟨bytes, origin, read, same⟩
  · exact same
  · rw [same, stamp_of_read? read]

namespace Recent

/-- What tier 1 makes of a hydration that is brought back at the end of a run. The copy is one that the
run gave out, hydrated or not, or an entry that tier 1 never gave out. -/
structure Guards (capacity : Nat) (uses : List Use) (later : Recent) : Prop where
  /-- A copy is accepted for its own key while nothing has displaced what it was read from. -/
  copies : ∀ before reading between, uses = before ++ reading :: between →
    ∀ key copy, ((empty capacity).through before).copy? reading = some (key, copy) →
      ∀ stored : Entry, stored.stamp = copy.stamp → ∀ asked,
        (later.adopt asked stored).1 = true ↔
          asked = key ∧ later.contains key = true ∧
            keeps key ((empty capacity).through (before ++ [reading])) between = true
  foreign : ∀ stored : Entry, stored.Foreign → ∀ asked, (later.adopt asked stored).1 = false
  accepted : ∀ asked stored, (later.adopt asked stored).1 = true →
    (later.adopt asked stored).2 = later.hydrating asked stored
  refused : ∀ asked stored, (later.adopt asked stored).1 = false →
    (later.adopt asked stored).2 = later

/-- While a word counts the writes, a hydration is taken over exactly by what it was made for. -/
theorem guards_through (capacity : Nat) (uses : List Use) (few : uses.countP Use.stamps < 2 ^ 64) :
    Guards capacity uses ((empty capacity).through uses) where
  copies := by
    rintro before reading between rfl key copy given stored same asked
    have parts : before ++ reading :: between = (before ++ [reading]) ++ between := by simp
    rw [parts, List.countP_append] at few
    have stamped := (stamped_empty capacity).through (before ++ [reading]) (by omega)
    have read : ((empty capacity).through (before ++ [reading])).slots.get? key = some copy := by
      rw [through_append]
      exact get?_copy (distinct_through (distinct_empty capacity) before) given
    rw [parts, through_append _ (before ++ [reading])]
    have bears := stamped.bears_through between (by omega) ⟨copy, read, rfl⟩
    rw [adopt_iff, same, bears]
    refine ⟨?_, fun ⟨own, _, kept⟩ => ⟨own, kept⟩⟩
    rintro ⟨own, kept⟩
    obtain ⟨now, resident, _⟩ := (bears key).2 ⟨rfl, kept⟩
    refine ⟨own, ?_, kept⟩
    rw [contains, Keyed.has, resident]
    rfl
  foreign := by
    intro stored foreign asked
    have stamped := (stamped_empty capacity).through uses (by omega)
    refine Bool.eq_false_iff.2 fun accepted => ?_
    have issued := (stamped.issued ((adopt_iff stored).1 accepted)).1
    rw [foreign.stamp] at issued
    exact absurd issued (by decide)
  accepted := fun asked stored accepted =>
    adopt_accepted (distinct_through (distinct_empty capacity) uses) accepted
  refused := fun asked stored => adopt_refused

/-- A copy is accepted after other keys were written, and refused after its own key was evicted and
written again. -/
theorem guards_through_reinserted :
    let entry := Entry.new "a" [] .epoch
    let copy : Entry := { entry.touch .epoch with stamp := 1 }
    let reading : List Use := [.write "a" entry, .fetch "a" .epoch]
    let elsewhere : List Use := [.write "b" entry, .erase "b"]
    let again : List Use := [.write "b" entry, .write "c" entry, .write "a" entry]
    (reading ++ elsewhere).countP Use.stamps < 2 ^ 64 ∧ (reading ++ again).countP Use.stamps < 2 ^ 64 ∧
      (((empty 2).through (reading ++ elsewhere)).adopt "a" copy).1 = true ∧
      (((empty 2).through (reading ++ again)).adopt "a" copy).1 = false := by
  intro entry copy reading elsewhere again
  have few : (reading ++ elsewhere).countP Use.stamps < 2 ^ 64 := by decide
  have others : (reading ++ again).countP Use.stamps < 2 ^ 64 := by decide
  have kept := (guards_through 2 _ few).copies [.write "a" entry] (.fetch "a" .epoch) elsewhere rfl
    "a" copy rfl copy rfl "a"
  have lost := (guards_through 2 _ others).copies [.write "a" entry] (.fetch "a" .epoch) again rfl
    "a" copy rfl copy rfl "a"
  refine ⟨few, others, kept.2 ⟨rfl, ?_, ?_⟩, Bool.eq_false_iff.2 fun accepted => ?_⟩
  · decide +kernel
  · decide +kernel
  · have displaced : keeps "a" ((empty 2).through ([.write "a" entry] ++ [.fetch "a" .epoch])) again =
        false := by decide +kernel
    rw [(lost.1 accepted).2.2] at displaced
    cases displaced

end Recent

end TieredCache
