import TieredCache.Proofs.Store.Operations

/-!
# Lookups on one share

A lookup sees and changes the share of its own key only, apart from evictions. `Lookup.stepOn` is its
step on this share, and `Lookup.simulates_step` says that the step on a store is this one.
-/

namespace TieredCache

/-! ## Hydrations -/

namespace Hydration

/-- The entry that is being hydrated. -/
def entry : Hydration → Entry
  | .running entry _ _ => entry
  | .finished _ entry => entry

@[simp] theorem entry_begin (resolving : Bool) (entry : Entry) (deadline : Option Nat) :
    (begin resolving entry deadline).entry = entry := by
  unfold begin
  split
  · rfl
  · split <;> rfl

theorem stored_finish (entry : Entry) (complete : Bool) :
    (entry.finish complete).stored = entry.stored := by
  unfold Entry.finish
  split <;> rfl

theorem stored_receive (entry : Entry) (path : String) (answer : Answer) :
    (entry.receive path answer).stored = entry.stored := by
  cases answer <;> rfl

/-- A hydration changes nothing that a record keeps. -/
theorem stored_step (answer : Answer) (hydration : Hydration) :
    (hydration.step answer).1.entry.stored = hydration.entry.stored := by
  unfold step
  split
  · exact stored_finish _ true
  · exact stored_finish _ false
  · exact stored_receive _ _ answer
  · rfl

end Hydration

/-! ## The step on a share -/

namespace Share

/-- Takes over the hydration of a copy, if the slot still holds what the copy was read from. -/
def adopt (share : Share) (copy : Entry) : Share :=
  match share.slot with
  | some entry => if entry.stamp = copy.stamp then share.withSlot (some (entry.adopt copy)) else share
  | none => share

/-- Retires the flight if it has landed. -/
def retire (share : Share) : Share :=
  match share.flight with
  | some (.landed _) => share.withFlight none
  | _ => share

end Share

namespace Lookup

/-- How a lookup goes on from the entry of a slot. -/
def afterSlot (setup : Store.Setup) (request : Request) (entry : Entry) : Lookup :=
  if setup.autoHydrate && !entry.hydrated then
    .hydrating .refresh (.begin setup.resolving entry request.deadline)
  else .done (some entry)

/-- How a lookup goes on from the entry of a record. -/
def afterShelf (setup : Store.Setup) (request : Request) (entry : Entry) : Lookup :=
  .hydrating .promote
    (if setup.autoHydrate then .begin setup.resolving entry request.deadline else .finished false entry)

/-- How a lookup goes on after both tiers have missed. -/
def afterMiss (setup : Store.Setup) (request : Request) : Lookup :=
  match request.paths with
  | some paths => if setup.resolving then .joining paths else .done none
  | none => .done none

/-- How a lookup goes on from a verdict. -/
def afterVerdict (setup : Store.Setup) (request : Request) (now : Moment)
    (verdict : Archive.Verdict) : Lookup :=
  match verdict.found? with
  | some entry => afterShelf setup request (entry.touch now)
  | none => afterMiss setup request

/-- The next step of a lookup, and what it does to the share of its key. -/
def stepOn (setup : Store.Setup) (request : Request) (answer : Answer) (now : Moment)
    (stamp : UInt64) (share : Share) : Lookup → Lookup × Share
  | .begun =>
    match share.slot with
    | some entry =>
      (afterSlot setup request (entry.touch now), share.withSlot (some (entry.touch now)))
    | none => (.missed, share)
  | .missed => (.judged (Archive.verdictOn request.key share.shelf), share)
  | .judged verdict =>
    (afterVerdict setup request now verdict,
      if verdict.purges then share.withShelf none else share)
  | .joining paths =>
    match share.flight with
    | some (.landed entry) => (.landing entry, share)
    | some .aloft => (.waiting, share)
    | none => (.leading paths, share.withFlight (some .aloft))
  | .waiting => (.waiting, share)
  | .leading paths =>
    match share.slot with
    | some entry =>
      (.landing (entry.touch now),
        (share.withSlot (some (entry.touch now))).withFlight (some (.landed (entry.touch now))))
    | none =>
      (.hydrating .seed (.begin setup.resolving (.new request.key paths now) request.deadline), share)
  | .hydrating .refresh (.finished _ copy) => (.done (some copy), share.adopt copy)
  | .hydrating .promote (.finished _ copy) =>
    (.done (some (share.offer copy now stamp).1), (share.offer copy now stamp).2)
  | .hydrating .seed (.finished _ copy) =>
    (.landing (share.offer (copy.touch now) now stamp).1,
      (share.offer (copy.touch now) now stamp).2.withFlight
        (some (.landed (share.offer (copy.touch now) now stamp).1)))
  | .hydrating aim (.running entry pending deadline) =>
    (.hydrating aim (Hydration.step answer (.running entry pending deadline)).1, share)
  | .landing entry => (.done (some entry), share.retire)
  | .done answer => (.done answer, share)

/-- The entries that a lookup carries are those of its key, and its verdict can be that on a tidy
archive. -/
def Proper (key : String) : Lookup → Prop
  | .judged verdict => verdict.Proper key
  | .hydrating _ hydration => hydration.entry.key = key
  | _ => True

theorem key_eq_of_stored {left right : Entry} (same : left.stored = right.stored) :
    left.key = right.key := by
  change left.stored.key = right.stored.key
  rw [same]

/-- A lookup stays proper. -/
theorem Proper.stepOn {setup : Store.Setup} {request : Request} {share : Share} {lookup : Lookup}
    (proper : lookup.Proper request.key)
    (own : ∀ entry ∈ share.slot, entry.key = request.key) (answer : Answer) (now : Moment)
    (stamp : UInt64) :
    (lookup.stepOn setup request answer now stamp share).1.Proper request.key := by
  cases lookup with
  | begun =>
      cases slot : share.slot with
      | none =>
          simp only [Lookup.stepOn, slot]
          trivial
      | some entry =>
          simp only [Lookup.stepOn, slot, afterSlot]
          split
          · rw [Proper, Hydration.entry_begin]
            exact own entry slot
          · trivial
  | missed => exact Archive.verdictOn_proper _ _
  | judged verdict =>
      simp only [Lookup.stepOn, afterVerdict]
      cases verdict with
      | sound entry =>
          simp only [Archive.Verdict.found?, afterShelf, Proper]
          split
          · rw [Hydration.entry_begin]
            exact proper
          · exact proper
      | _ =>
          simp only [Archive.Verdict.found?, afterMiss]
          split
          · split <;> trivial
          · trivial
  | joining paths =>
      simp only [Lookup.stepOn]
      split <;> trivial
  | waiting => trivial
  | leading paths =>
      simp only [Lookup.stepOn]
      split
      · trivial
      · rw [Proper, Hydration.entry_begin]
        rfl
  | hydrating aim hydration =>
      cases hydration with
      | finished found copy => cases aim <;> trivial
      | running entry pending deadline =>
          simp only [Lookup.stepOn, Proper]
          exact (key_eq_of_stored (Hydration.stored_step answer _)).trans proper
  | landing entry => trivial
  | done answer => trivial

/-! ## The step on a store -/

variable {known : String → Prop} {home : Path} {store : Store} {request : Request}

/-- What a lookup does to a store is what it does to the share of its key. -/
structure Simulates (known : String → Prop) (home : Path) (request : Request) (before : Store)
    (expected : Lookup × Share) (after : Lookup × Store) : Prop where
  moves : Store.Moves known home request.key before after.2
  lookup : after.1 = expected.1
  share : after.2.share request.key = expected.2

theorem Simulates.alike {expected : Lookup × Share} {after : Lookup × Store} {later : Store}
    (simulates : Simulates known home request store expected after) (alike : Store.Alike after.2 later) :
    Simulates known home request store expected (after.1, later) :=
  ⟨simulates.moves.trans (alike.moves simulates.moves.tidy request.key), simulates.lookup,
    (alike.share request.key).trans simulates.share⟩

theorem ofRecent_eq (request : Request) (store : Store) (entry : Entry) :
    ofRecent request store entry =
      (afterSlot store.setup request entry, store.count .recentHit) := by
  unfold ofRecent afterSlot Store.setup
  simp only
  split <;> rfl

theorem ofArchive_eq (request : Request) (store : Store) (entry : Entry) (now : Moment) :
    ofArchive request store entry now =
      (afterShelf store.setup request (entry.touch now), store.count .archiveHit) := rfl

theorem ofPaths_spec (request : Request) (store : Store) :
    (ofPaths request store).1 = afterMiss store.setup request ∧
      Store.Alike store (ofPaths request store).2 := by
  unfold ofPaths afterMiss
  cases request.paths with
  | none => exact ⟨rfl, Store.alike_count store _⟩
  | some paths =>
      simp only
      cases resolving : store.cache.resolving with
      | true =>
          have setup : store.setup.resolving = true := resolving
          rw [if_pos rfl, if_pos setup]
          exact ⟨rfl, rfl, rfl, rfl, rfl, rfl⟩
      | false =>
          have setup : ¬ store.setup.resolving = true := by
            change ¬ store.cache.resolving = true
            rw [resolving]
            exact Bool.false_ne_true
          rw [if_neg Bool.false_ne_true, if_neg setup]
          exact ⟨rfl, rfl, rfl, rfl, rfl, rfl⟩

theorem simulates_begun (tidy : store.Tidy known home) (answer : Answer) (now : Moment) :
    Simulates known home request store
      (Lookup.begun.stepOn store.setup request answer now store.cache.recent.nextStamp
        (store.share request.key))
      (Lookup.begun.step request answer now store) := by
  simp only [Lookup.step, Lookup.stepOn, Recent.fetch]
  cases resident : store.cache.recent.slots.get? request.key with
  | none =>
      have slot : (store.share request.key).slot = none := resident
      simp only [slot]
      exact ⟨Store.Moves.refl tidy request.key, rfl, rfl⟩
  | some held =>
      have slot : (store.share request.key).slot = some held := resident
      have slots := Recent.slotChange_put tidy.distinct request.key (held.touch now)
      obtain ⟨moves, share⟩ := Store.moves_withRecent tidy slots
        (by rintro other ⟨⟩; exact tidy.own request.key held resident)
      simp only [slot, ofRecent_eq]
      have touched : Simulates known home request store
          (afterSlot store.setup request (held.touch now),
            (store.share request.key).withSlot (some (held.touch now)))
          (afterSlot store.setup request (held.touch now), store.withRecent
            { store.cache.recent with slots := store.cache.recent.slots.put request.key (held.touch now) }) :=
        ⟨moves, rfl, share⟩
      exact touched.alike (Store.alike_count _ _)

theorem simulates_judged (distinct : DistinctNames known) (tidy : store.Tidy known home)
    (key_known : known request.key) {verdict : Archive.Verdict} (proper : verdict.Proper request.key)
    (answer : Answer) (now : Moment) :
    Simulates known home request store
      ((Lookup.judged verdict).stepOn store.setup request answer now store.cache.recent.nextStamp
        (store.share request.key))
      ((Lookup.judged verdict).step request answer now store) := by
  have leaves := tidy.archive.settle distinct key_known proper
  obtain ⟨moves, share⟩ := Store.moves_carryOut tidy request.key leaves
    fun other differs => if_neg fun both => differs both.2
  have shelf : (store.carryOut (store.cache.archive.settle store.disk request.key verdict)).share
      request.key = if verdict.purges then (store.share request.key).withShelf none
        else store.share request.key := by
    rw [share]
    cases verdict.purges with
    | true => simp
    | false => simp [Share.withShelf, Store.share]
  have settled : Simulates known home request store
      (afterVerdict store.setup request now verdict,
        if verdict.purges then (store.share request.key).withShelf none else store.share request.key)
      (afterVerdict store.setup request now verdict,
        store.carryOut (store.cache.archive.settle store.disk request.key verdict)) :=
    ⟨moves, rfl, shelf⟩
  simp only [Lookup.step, Lookup.stepOn, Archive.answer_settle]
  have setup := moves.setup
  generalize store.carryOut (store.cache.archive.settle store.disk request.key verdict) = middle
    at settled setup ⊢
  cases found : verdict.found? with
  | some entry =>
      have next := settled.alike (Store.alike_count middle .archiveHit)
      have lookup : afterVerdict store.setup request now verdict =
          afterShelf middle.setup request (entry.touch now) := by
        rw [afterVerdict, found, setup]
      rw [lookup] at next
      simp only [ofArchive_eq]
      rw [lookup]
      exact next
  | none =>
      obtain ⟨lookup, alike⟩ := ofPaths_spec request middle
      have next := settled.alike alike
      have after : afterVerdict store.setup request now verdict = (ofPaths request middle).1 := by
        rw [afterVerdict, found, lookup, setup]
      rw [after] at next ⊢
      exact next

theorem simulates_joining (tidy : store.Tidy known home) (paths : List String) (answer : Answer)
    (now : Moment) :
    Simulates known home request store
      ((Lookup.joining paths).stepOn store.setup request answer now store.cache.recent.nextStamp
        (store.share request.key))
      ((Lookup.joining paths).step request answer now store) := by
  have flight : (store.share request.key).flight = store.cache.flights.get? request.key := rfl
  simp only [Lookup.step, Lookup.stepOn, join, flight]
  cases store.cache.flights.get? request.key with
  | none =>
      obtain ⟨moves, share⟩ := Store.moves_withFlights tidy request.key
        (store.cache.flights.put request.key .aloft) fun other differs => by
          rw [Keyed.get?_put, if_neg differs]
      rw [Keyed.get?_put, if_pos rfl] at share
      exact ⟨moves, rfl, share⟩
  | some flight =>
      cases flight <;> exact ⟨Store.Moves.refl tidy request.key, rfl, rfl⟩

/-- A flight that lands does so for its key alone. -/
theorem moves_land (tidy : store.Tidy known home) (key : String) (entry : Entry) :
    Store.Moves known home key store (store.land key entry) ∧
      (store.land key entry).share key =
        (store.share key).withFlight (some (.landed entry)) := by
  obtain ⟨moves, share⟩ := Store.moves_withFlights tidy key
    (store.cache.flights.put key (.landed entry)) fun other differs => by
      rw [Keyed.get?_put, if_neg differs]
  rw [Keyed.get?_put, if_pos rfl] at share
  exact ⟨moves, share⟩

theorem simulates_leading (tidy : store.Tidy known home) (paths : List String) (answer : Answer)
    (now : Moment) :
    Simulates known home request store
      ((Lookup.leading paths).stepOn store.setup request answer now store.cache.recent.nextStamp
        (store.share request.key))
      ((Lookup.leading paths).step request answer now store) := by
  simp only [Lookup.step, Lookup.stepOn, lead, Recent.fetch]
  cases resident : store.cache.recent.slots.get? request.key with
  | none =>
      have slot : (store.share request.key).slot = none := resident
      simp only [slot]
      exact ⟨Store.Moves.refl tidy request.key, rfl, rfl⟩
  | some held =>
      have slot : (store.share request.key).slot = some held := resident
      have slots := Recent.slotChange_put tidy.distinct request.key (held.touch now)
      obtain ⟨first, first_share⟩ := Store.moves_withRecent tidy slots
        (by rintro other ⟨⟩; exact tidy.own request.key held resident)
      obtain ⟨second, second_share⟩ := moves_land first.tidy request.key (held.touch now)
      rw [first_share] at second_share
      simp only [slot]
      exact ⟨first.trans second, rfl, second_share⟩

theorem simulates_refresh (tidy : store.Tidy known home) (found : Bool) (copy : Entry)
    (answer : Answer) (now : Moment) :
    Simulates known home request store
      ((Lookup.hydrating .refresh (.finished found copy)).stepOn store.setup request answer now
        store.cache.recent.nextStamp (store.share request.key))
      ((Lookup.hydrating .refresh (.finished found copy)).step request answer now store) := by
  simp only [Lookup.step, Lookup.stepOn, deliver, Recent.adopt, Share.adopt]
  cases resident : store.cache.recent.slots.get? request.key with
  | none =>
      have slot : (store.share request.key).slot = none := resident
      simp only [slot]
      exact ⟨Store.Moves.refl tidy request.key, rfl, rfl⟩
  | some held =>
      have slot : (store.share request.key).slot = some held := resident
      simp only [slot]
      by_cases same : held.stamp = copy.stamp
      · have slots := Recent.slotChange_set tidy.distinct resident (held.adopt copy)
        obtain ⟨moves, share⟩ := Store.moves_withRecent tidy slots
          (by rintro other ⟨⟩; exact tidy.own request.key held resident)
        rw [if_pos same, if_pos same]
        exact ⟨moves, rfl, share⟩
      · rw [if_neg same, if_neg same]
        exact ⟨Store.Moves.refl tidy request.key, rfl, rfl⟩

theorem simulates_promote (distinct : DistinctNames known) (tidy : store.Tidy known home)
    (key_known : known request.key) (found : Bool) {copy : Entry} (own : copy.key = request.key)
    (answer : Answer) (now : Moment) :
    Simulates known home request store
      ((Lookup.hydrating .promote (.finished found copy)).stepOn store.setup request answer now
        store.cache.recent.nextStamp (store.share request.key))
      ((Lookup.hydrating .promote (.finished found copy)).step request answer now store) := by
  obtain ⟨moves, offered⟩ := Store.moves_offer distinct tidy own key_known now
  simp only [Lookup.step, Lookup.stepOn, deliver, ← offered]
  exact ⟨moves, rfl, rfl⟩

theorem simulates_seed (distinct : DistinctNames known) (tidy : store.Tidy known home)
    (key_known : known request.key) (found : Bool) {copy : Entry} (own : copy.key = request.key)
    (answer : Answer) (now : Moment) :
    Simulates known home request store
      ((Lookup.hydrating .seed (.finished found copy)).stepOn store.setup request answer now
        store.cache.recent.nextStamp (store.share request.key))
      ((Lookup.hydrating .seed (.finished found copy)).step request answer now store) := by
  have touched_own : (copy.touch now).key = request.key := own
  obtain ⟨first, offered⟩ := Store.moves_offer distinct tidy touched_own key_known now
  obtain ⟨second, landed⟩ := moves_land first.tidy request.key
    (store.offer request.key (copy.touch now) now).1
  simp only [Lookup.step, Lookup.stepOn, deliver, ← offered]
  exact ⟨first.trans second, rfl, landed⟩

theorem withFlight_retire (store : Store) (key : String) :
    (store.share key).withFlight ((store.cache.flights.retire key).get? key) =
      (store.share key).retire := by
  have flight : (store.share key).flight = store.cache.flights.get? key := rfl
  unfold Flights.retire Flights.landed? Share.retire
  rw [flight]
  cases held : store.cache.flights.get? key with
  | none =>
      simp only [Option.isSome_none, Bool.false_eq_true, if_false, held]
      rw [← flight] at held
      rw [← held]
      rfl
  | some flight_held =>
      cases flight_held with
      | aloft =>
          simp only [Option.isSome_none, Bool.false_eq_true, if_false, held]
          rw [← flight] at held
          rw [← held]
          rfl
      | landed landed =>
          simp only [Option.isSome_some, if_true]
          rw [Keyed.get?_erase, if_pos rfl]

theorem simulates_landing (tidy : store.Tidy known home) (entry : Entry) (answer : Answer)
    (now : Moment) :
    Simulates known home request store
      ((Lookup.landing entry).stepOn store.setup request answer now store.cache.recent.nextStamp
        (store.share request.key))
      ((Lookup.landing entry).step request answer now store) := by
  have others : ∀ other, other ≠ request.key →
      (store.cache.flights.retire request.key).get? other = store.cache.flights.get? other := by
    intro other differs
    unfold Flights.retire
    split
    · rw [Keyed.get?_erase, if_neg differs]
    · rfl
  obtain ⟨moves, share⟩ := Store.moves_withFlights tidy request.key _ others
  have landed : Simulates known home request store
      (.done (some entry), (store.share request.key).retire)
      (.done (some entry), store.withFlights (store.cache.flights.retire request.key)) :=
    ⟨moves, rfl, share.trans (withFlight_retire store request.key)⟩
  exact landed.alike (Store.alike_count _ _)

/-- The step of a proper lookup on a store is its step on the share of its key. -/
theorem simulates_step (distinct : DistinctNames known) (tidy : store.Tidy known home)
    (key_known : known request.key) {lookup : Lookup} (proper : lookup.Proper request.key)
    (answer : Answer) (now : Moment) :
    Simulates known home request store
      (lookup.stepOn store.setup request answer now store.cache.recent.nextStamp
        (store.share request.key))
      (lookup.step request answer now store) := by
  cases lookup with
  | begun => exact simulates_begun tidy answer now
  | missed =>
      simp only [Lookup.step, Lookup.stepOn, tidy.archive.inspect_eq]
      exact ⟨(Store.alike_note store _).moves tidy request.key, rfl, rfl⟩
  | judged verdict => exact simulates_judged distinct tidy key_known proper answer now
  | joining paths => exact simulates_joining tidy paths answer now
  | waiting => exact ⟨Store.Moves.refl tidy request.key, rfl, rfl⟩
  | leading paths => exact simulates_leading tidy paths answer now
  | hydrating aim hydration =>
      cases hydration with
      | running entry pending deadline =>
          cases aim <;> exact ⟨(Store.alike_note store _).moves tidy request.key, rfl, rfl⟩
      | finished found copy =>
          cases aim with
          | refresh => exact simulates_refresh tidy found copy answer now
          | promote => exact simulates_promote distinct tidy key_known found proper answer now
          | seed => exact simulates_seed distinct tidy key_known found proper answer now
  | landing entry => exact simulates_landing tidy entry answer now
  | done answer => exact ⟨Store.Moves.refl tidy request.key, rfl, rfl⟩

end Lookup

end TieredCache
