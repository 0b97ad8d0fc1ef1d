import TieredCache.Proofs.Crowd.Uses
import TieredCache.Proofs.Entry.Origins
import TieredCache.Proofs.Lookup.Kinds

/-!
# Sound entries in a store

Every slot and every flight that has landed holds a sound entry of its key, and every lookup carries sound
entries of the key that it is for. A step keeps this up: an entry goes from one of them to another, comes
from a record of the key, or is made anew for it.
-/

namespace TieredCache

variable {origins more : Artifacts}

/-! ## Tier 1 -/

/-- Every entry is a sound one of the key under which it is kept. -/
def Keyed.Fit (origins : Artifacts) (keyed : Keyed Entry) : Prop :=
  ∀ pair ∈ keyed, pair.2.Fits origins pair.1

namespace Keyed.Fit

variable {keyed : Keyed Entry} {key : String} {entry : Entry}

theorem of_get? (fit : Keyed.Fit origins keyed) (found : keyed.get? key = some entry) :
    entry.Fits origins key :=
  fit (key, entry) (mem_of_get? found)

theorem erase (fit : Keyed.Fit origins keyed) (key : String) : Keyed.Fit origins (keyed.erase key) :=
  fun pair among => fit pair (List.mem_filter.1 among).1

theorem append_singleton (fit : Keyed.Fit origins keyed) (fits : entry.Fits origins key) :
    Keyed.Fit origins (keyed ++ [(key, entry)]) := by
  intro pair among
  rcases List.mem_append.1 among with before | new
  · exact fit pair before
  · obtain rfl := List.mem_singleton.1 new
    exact fits

theorem put (fit : Keyed.Fit origins keyed) (fits : entry.Fits origins key) :
    Keyed.Fit origins (keyed.put key entry) :=
  (fit.erase key).append_singleton fits

theorem set (fit : Keyed.Fit origins keyed) (fits : entry.Fits origins key) :
    Keyed.Fit origins (keyed.set key entry) := by
  intro pair among
  obtain ⟨before, held, rfl⟩ := List.mem_map.1 among
  split
  · exact fits
  · exact fit before held

end Keyed.Fit

/-- What a use brings to tier 1 is sound, and has the key under which it is to be kept. -/
def Use.Fits (origins : Artifacts) : Use → Prop
  | .write key entry => entry.Fits origins key
  | .offer key entry _ => entry.Fits origins key
  | .adopt _ copy => copy.Sound origins
  | _ => True

namespace Recent

variable {recent : Recent} {use : Use} {evicted slots : Keyed Entry}

theorem Shifts.fit (shifts : recent.Shifts use evicted slots) (fit : Keyed.Fit origins recent.slots)
    (brings : use.Fits origins) : Keyed.Fit origins slots := by
  have staying : Keyed.Fit origins (recent.slots.drop recent.excess) :=
    fun pair among => fit pair (List.mem_of_mem_drop among)
  cases shifts with
  | rewritten resident => exact fit.put (Entry.Fits.stamped brings _)
  | written absent => exact staying.append_singleton (Entry.Fits.stamped brings _)
  | declined resident => exact fit.put ((fit.of_get? resident).touch _)
  | taken absent => exact staying.append_singleton (Entry.Fits.stamped brings _)
  | found resident => exact fit.put ((fit.of_get? resident).touch _)
  | missed absent => exact fit
  | adopted resident current => exact fit.set ((fit.of_get? resident).adopt brings)
  | refused stale => exact fit
  | erased => exact fit.erase _
  | asked => exact fit
  | cleared => exact List.forall_mem_nil _

/-- What is evicted was held. -/
theorem Shifts.evicted_subset (shifts : recent.Shifts use evicted slots) : evicted ⊆ recent.slots := by
  cases shifts with
  | written absent => exact List.take_subset _ _
  | taken absent => exact List.take_subset _ _
  | _ => exact List.nil_subset _

end Recent

/-! ## Lookups -/

/-- The entries that tier 1 holds, and those whose flights have landed, are sound ones of their keys. -/
structure Store.Fit (origins : Artifacts) (store : Store) : Prop where
  slots : Keyed.Fit origins store.cache.recent.slots
  flights : ∀ key entry, store.cache.flights.get? key = some (.landed entry) → entry.Fits origins key

namespace Lookup

/-- What a lookup carries, or answers, is sound and has the key that it is for. -/
def Fits (origins : Artifacts) (key : String) : Lookup → Prop
  | .judged verdict => ∀ entry, verdict.found? = some entry → entry.Fits origins key
  | .hydrating _ hydration => hydration.entry.key = key ∧ hydration.Sound origins
  | .landing entry => entry.Fits origins key
  | .done answer => ∀ entry ∈ answer, entry.Fits origins key
  | _ => True

variable {request : Request} {lookup : Lookup} {key : String} {entry : Entry} {share : Share}

theorem fits_afterSlot (setup : Store.Setup) (fits : entry.Fits origins request.key) :
    (afterSlot setup request entry).Fits origins request.key := by
  rw [afterSlot]
  split
  · exact ⟨(congrArg Entry.key (Hydration.entry_begin _ _ _)).trans fits.own,
      Hydration.sound_begin _ fits.sound _⟩
  · intro given answered
    obtain rfl := Option.some.inj answered
    exact fits

theorem fits_afterShelf (setup : Store.Setup) (fits : entry.Fits origins request.key) :
    (afterShelf setup request entry).Fits origins request.key := by
  rw [afterShelf]
  split
  · exact ⟨(congrArg Entry.key (Hydration.entry_begin _ _ _)).trans fits.own,
      Hydration.sound_begin _ fits.sound _⟩
  · exact ⟨fits.own, .finished fits.sound⟩

theorem fits_afterMiss (setup : Store.Setup) (request : Request) :
    (afterMiss setup request).Fits origins request.key := by
  rw [afterMiss]
  split
  · split
    · trivial
    · intro entry answered
      cases answered
  · intro entry answered
    cases answered

theorem fits_offer (slot : ∀ held ∈ share.slot, held.Fits origins key) (fits : entry.Fits origins key)
    (now : Moment) (stamp : UInt64) : (share.offer entry now stamp).1.Fits origins key := by
  rw [Share.offer]
  split
  · rename_i held resident
    exact (slot held resident).touch now
  · exact fits.stamped stamp

/-- A lookup whose hydration has ended leaves, whatever its aim, a lookup and a flight that fit. -/
theorem fits_stepOn_finished {copy : Entry} (copied : copy.Fits origins request.key)
    (slot : ∀ held ∈ share.slot, held.Fits origins request.key)
    (flight : ∀ held, share.flight = some (.landed held) → held.Fits origins request.key)
    (setup : Store.Setup) (aim : Aim) (found : Bool) (answer : Answer) (now : Moment) (stamp : UInt64) :
    ((Lookup.hydrating aim (.finished found copy)).stepOn setup request answer now stamp share).1.Fits
        origins request.key ∧
      ∀ held, ((Lookup.hydrating aim (.finished found copy)).stepOn setup request answer now stamp
        share).2.flight = some (.landed held) → held.Fits origins request.key := by
  cases aim with
  | refresh =>
      refine ⟨fun entry answered => Option.some.inj answered ▸ copied, fun held landed => ?_⟩
      refine flight held (Eq.trans ?_ landed)
      simp only [Lookup.stepOn, Share.adopt]
      split
      · split <;> rfl
      · rfl
  | promote =>
      have given := fits_offer slot copied now stamp
      refine ⟨fun entry answered => Option.some.inj answered ▸ given, fun held landed => ?_⟩
      exact flight held ((share.flight_offer copy now stamp).symm.trans landed)
  | seed =>
      have given := fits_offer slot (copied.touch now) now stamp
      refine ⟨given, fun held landed => ?_⟩
      obtain rfl := Flight.landed.inj (Option.some.inj landed)
      exact given

/-- A step on a share leaves a lookup and a flight that fit. -/
theorem Fits.stepOn (fits : lookup.Fits origins request.key) {answer : Answer}
    (came : answer.brings lookup.question? ⊆ origins)
    (slot : ∀ held ∈ share.slot, held.Fits origins request.key)
    (flight : ∀ held, share.flight = some (.landed held) → held.Fits origins request.key)
    (asked : lookup ≠ .missed) (setup : Store.Setup) (now : Moment) (stamp : UInt64) :
    (lookup.stepOn setup request answer now stamp share).1.Fits origins request.key ∧
      ∀ held, (lookup.stepOn setup request answer now stamp share).2.flight = some (.landed held) →
        held.Fits origins request.key := by
  cases lookup with
  | begun =>
      rw [Lookup.stepOn]
      split
      · rename_i held resident
        exact ⟨fits_afterSlot setup ((slot held resident).touch now), flight⟩
      · exact ⟨trivial, flight⟩
  | missed => exact absurd rfl asked
  | judged verdict =>
      refine ⟨?_, fun held landed => flight held ?_⟩
      · rw [Lookup.stepOn, afterVerdict]
        split
        · rename_i entry found
          exact fits_afterShelf setup ((fits entry found).touch now)
        · exact fits_afterMiss setup request
      · simp only [Lookup.stepOn] at landed
        split at landed
        · exact landed
        · exact landed
  | joining paths =>
      rw [Lookup.stepOn]
      split
      · rename_i held landed
        exact ⟨flight held landed, flight⟩
      · exact ⟨trivial, flight⟩
      · refine ⟨trivial, fun held aloft => ?_⟩
        cases aloft
  | waiting => exact ⟨trivial, flight⟩
  | leading paths =>
      rw [Lookup.stepOn]
      split
      · rename_i held resident
        have read := (slot held resident).touch now
        refine ⟨read, fun landing landed => ?_⟩
        obtain rfl := Flight.landed.inj (Option.some.inj landed)
        exact read
      · refine ⟨⟨congrArg Entry.key (Hydration.entry_begin _ _ _), ?_⟩, flight⟩
        exact Hydration.sound_begin _ (Entry.sound_of_bare rfl) _
  | hydrating aim hydration =>
      obtain ⟨own, sound⟩ := fits
      cases sound with
      | @running entry pending deadline sourced =>
          have next : (Hydration.step answer (.running entry pending deadline)).1.Sound origins :=
            Hydration.Sound.step (.running sourced) came
          have kept := (key_eq_of_stored (Hydration.stored_step answer _)).trans own
          cases aim <;> exact ⟨⟨kept, next⟩, flight⟩
      | @finished found copy sound =>
          exact fits_stepOn_finished ⟨own, sound⟩ slot flight setup aim found answer now stamp
  | landing entry =>
      refine ⟨fun given answered => Option.some.inj answered ▸ fits, fun held landed => ?_⟩
      simp only [Lookup.stepOn, Share.retire] at landed
      split at landed
      · cases landed
      · exact flight held landed
  | done given => exact ⟨fits, flight⟩

theorem use?_fits (fits : lookup.Fits origins request.key) {now : Moment} {use : Use}
    (asks : lookup.use? request now = some use) : use.Fits origins := by
  rw [Lookup.use?.eq_def] at asks
  split at asks
  · obtain rfl := Option.some.inj asks
    trivial
  · obtain rfl := Option.some.inj asks
    trivial
  · obtain ⟨own, sound⟩ := fits
    obtain rfl := Option.some.inj asks
    exact sound.result? rfl
  · obtain ⟨own, sound⟩ := fits
    obtain rfl := Option.some.inj asks
    exact ⟨own, sound.result? rfl⟩
  · obtain ⟨own, sound⟩ := fits
    obtain rfl := Option.some.inj asks
    exact Entry.Fits.touch ⟨own, sound.result? rfl⟩ now
  · cases asks

theorem fits_inspect (archive : Archive) (disk : Disk) {key : String} :
    (Lookup.judged (archive.inspect disk key)).Fits origins key := by
  intro entry found
  rw [Archive.inspect] at found
  split at found
  · cases found
  · split at found
    · cases found
    · cases found
    · split at found
      · rename_i read
        obtain rfl := Option.some.inj found
        exact Entry.fits_of_readOwn? read
      · cases found

/-- A step of a lookup leaves a store and a lookup that fit. -/
theorem Fits.step (fits : lookup.Fits origins request.key) {store : Store} (fit : store.Fit origins)
    {answer : Answer} (came : answer.brings lookup.question? ⊆ origins) (now : Moment) :
    (lookup.step request answer now store).1.Fits origins request.key ∧
      (lookup.step request answer now store).2.Fit origins := by
  by_cases missed : lookup = .missed
  · subst missed
    exact ⟨fits_inspect _ _, fit.slots, fit.flights⟩
  · have fronts := fronts_step store request lookup answer now
    have slot : ∀ held ∈ (store.share request.key).slot, held.Fits origins request.key :=
      fun held resident => fit.slots.of_get? resident
    obtain ⟨next, flight⟩ := fits.stepOn came slot (fit.flights request.key) missed store.setup now
      store.cache.recent.nextStamp
    refine ⟨fronts.phase missed ▸ next, ?_, fun key entry landed => ?_⟩
    · rw [recent_step]
      cases asks : lookup.use? request now with
      | none => exact fit.slots
      | some use => exact (store.cache.recent.shifts use).fit fit.slots (use?_fits fits asks)
    · by_cases own : key = request.key
      · subst own
        exact flight entry (fronts.flight ▸ landed)
      · rw [flight_step_ne store request lookup answer now own] at landed
        exact fit.flights key entry landed

/-- A caller that waited for a flight goes on with the entry that it has landed with. -/
theorem Fits.receive (fits : lookup.Fits origins request.key) {flights : Flights}
    (fit : ∀ key entry, flights.get? key = some (.landed entry) → entry.Fits origins key) :
    (lookup.receive request flights).Fits origins request.key := by
  rw [Lookup.receive.eq_def]
  split
  · split
    · rename_i entry landed
      rw [Flights.landed?] at landed
      split at landed
      · rename_i held found
        obtain rfl := Option.some.inj landed
        exact fit request.key _ found
      · cases landed
    · trivial
  · exact fits

theorem Fits.mono (fits : lookup.Fits origins key) (grows : origins ⊆ more) : lookup.Fits more key := by
  cases lookup with
  | judged verdict => exact fun entry found => (fits entry found).mono grows
  | hydrating aim hydration => exact ⟨fits.1, fits.2.mono grows⟩
  | landing entry => exact Entry.Fits.mono fits grows
  | done answer => exact fun entry answered => (fits entry answered).mono grows
  | _ => trivial

end Lookup

theorem Store.Fit.mono {store : Store} (fit : store.Fit origins) (grows : origins ⊆ more) :
    store.Fit more :=
  ⟨fun pair among => (fit.slots pair among).mono grows, fun key entry landed =>
    (fit.flights key entry landed).mono grows⟩

end TieredCache
