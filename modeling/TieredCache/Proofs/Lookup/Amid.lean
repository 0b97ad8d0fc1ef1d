import TieredCache.Proofs.Archive.Mishaps
import TieredCache.Proofs.Lookup.Sequential

/-!
# Puts and lookups amid mishaps

Whatever goes wrong with the writes of a spill, a put and a lookup answer as they do when nothing goes
wrong, and leave the same cache in front of the archive. If no record can be written, they leave tier 2 as it
was.
-/

namespace TieredCache

/-! ## The cache above the archive -/

namespace Store

/-- The cache without what its archive holds. -/
def above (store : Store) : Cache := { store.cache with archive := ⟨[], []⟩ }

/-- What of a put shows above the archive. -/
def abovePut : Entry × Store → Entry × Cache
  | (entry, store) => (entry, store.above)

/-- What of a lookup shows above the archive. -/
def aboveGet {σ : Type} : Option Entry × Store × σ → Option Entry × Cache × σ
  | (answer, store, state) => (answer, store.above, state)

variable {store left right : Store}

/-- Whatever goes wrong with them, spills leave the cache above the archive as it is. -/
theorem above_spillAllAmid (hazards : List Hazard) (store : Store) (evicted : Keyed Entry) (recent : Recent) :
    ((spillAllAmid hazards store evicted).withRecent recent).above =
      ((store.spillAll evicted).withRecent recent).above := by
  simp only [above, withRecent]
  rw [cache_spillAllAmid, (store.spillAll_frame evicted).1]

theorem above_land (same : left.above = right.above) (key : String) (entry : Entry) :
    (left.land key entry).above = (right.land key entry).above :=
  congrArg (fun cache : Cache => { cache with flights := cache.flights.put key (.landed entry) }) same

theorem above_retire (same : left.above = right.above) (key : String) (ending : Ending) :
    ((left.withFlights (left.cache.flights.retire key)).count ending).above =
      ((right.withFlights (right.cache.flights.retire key)).count ending).above :=
  congrArg (fun cache : Cache =>
    { cache with flights := cache.flights.retire key, tally := cache.tally.count ending }) same

/-! ## Puts -/

theorem putEntryAmid_refused (hazards : List Hazard) (store : Store) {entry : Entry}
    (empty : entry.key.isEmpty = true) : store.putEntryAmid hazards entry = .error .emptyKey := by
  simp only [putEntryAmid, Fault.checkKey, empty]
  rfl

theorem putEntryAmid_eq (hazards : List Hazard) (store : Store) {entry : Entry}
    (nonempty : entry.key.isEmpty = false) :
    let stored := described store.cache entry
    store.putEntryAmid hazards entry = .ok (stored,
      (spillAllAmid hazards store (store.cache.recent.write stored.key stored).1).withRecent
        (store.cache.recent.write stored.key stored).2) := by
  simp only [putEntryAmid, Fault.checkKey, nonempty]
  rfl

/-- Whatever goes wrong, a put does above the archive what it always does. -/
theorem above_putEntryAmid (hazards : List Hazard) (store : Store) (entry : Entry) :
    (store.putEntryAmid hazards entry).map abovePut = (store.putEntry entry).map abovePut := by
  cases empty : entry.key.isEmpty with
  | true => rw [putEntryAmid_refused hazards store empty, putEntry_refused store empty]
  | false =>
      rw [putEntryAmid_eq hazards store empty, putEntry_eq empty]
      exact congrArg Except.ok (Prod.ext rfl (above_spillAllAmid hazards store _ _))

/-- With nothing going wrong, a put is the one it always is. -/
theorem putEntryAmid_calm (store : Store) (entry : Entry) :
    store.putEntryAmid [] entry = store.putEntry entry := by
  simp only [putEntryAmid, putEntry, spillAllAmid_calm]

theorem offerAmid_calm (store : Store) (key : String) (entry : Entry) (now : Moment) :
    store.offerAmid [] key entry now = store.offer key entry now := by
  simp only [offerAmid, offer, spillAllAmid_calm]

end Store

/-! ## Lookups -/

namespace Run

variable {σ : Type} {left right : Run σ} (hazards : List Hazard) (resolve : Resolver σ) (request : Request)
  (now : Moment)

/-- Two runs from one store, of which the first meets mishaps: the same so far, or past the delivery of
their entry and still the same above the archive. -/
inductive Beside : Run σ → Run σ → Prop where
  | same (run : Run σ) : Beside run run
  | landing {left right : Store} {entry : Entry} {state : σ} (above : left.above = right.above) :
      Beside ⟨.landing entry, left, state⟩ ⟨.landing entry, right, state⟩
  | done {left right : Store} {answer : Option Entry} {state : σ} (above : left.above = right.above) :
      Beside ⟨.done answer, left, state⟩ ⟨.done answer, right, state⟩

theorem Beside.lookup (beside : left.Beside right) : left.lookup = right.lookup := by
  cases beside <;> rfl

theorem Beside.state (beside : left.Beside right) : left.state = right.state := by
  cases beside <;> rfl

theorem Beside.above (beside : left.Beside right) : left.store.above = right.store.above := by
  cases beside with
  | same run => rfl
  | landing above => exact above
  | done above => exact above

theorem beside_delivery (aim : Aim) (found : Bool) (entry : Entry) (store : Store) (state : σ) :
    (nextAmid hazards resolve request now ⟨.hydrating aim (.finished found entry), store, state⟩).Beside
      (next resolve request now ⟨.hydrating aim (.finished found entry), store, state⟩) := by
  cases aim with
  | refresh => exact .same _
  | promote => exact .done (Store.above_spillAllAmid hazards store _ _)
  | seed =>
      refine .landing ?_
      exact Store.above_land (Store.above_spillAllAmid hazards store _ _) request.key _

theorem Beside.next (beside : left.Beside right) :
    (left.nextAmid hazards resolve request now).Beside (right.next resolve request now) := by
  cases beside with
  | same =>
      obtain ⟨lookup, store, state⟩ := left
      cases lookup with
      | hydrating aim hydration =>
          cases hydration with
          | running entry pending deadline => exact .same _
          | finished found entry => exact beside_delivery hazards resolve request now aim found entry store state
      | begun => exact .same _
      | missed => exact .same _
      | judged verdict => exact .same _
      | joining paths => exact .same _
      | waiting => exact .same _
      | leading paths => exact .same _
      | landing entry => exact .same _
      | done answer => exact .same _
  | landing above => exact .done (Store.above_retire above request.key .rebuild)
  | done above => exact .done above

theorem Beside.advance (beside : left.Beside right) (steps : Nat) :
    (advanceAmid hazards resolve request now steps left).Beside (advance resolve request now steps right) := by
  induction steps generalizing left right with
  | zero => exact beside
  | succ steps induction => exact induction (beside.next hazards resolve request now)

/-- The run of a lookup from its begin to its end, amid hazards. -/
def wholeAmid (store : Store) (state : σ) : Run σ :=
  let found := advanceAmid hazards resolve request now searchSteps ⟨.begun, store, state⟩
  advanceAmid hazards resolve request now found.lookup.remaining found

theorem beside_whole (store : Store) (state : σ) :
    (wholeAmid hazards resolve request now store state).Beside (whole resolve request now store state) := by
  have found := (Beside.same (⟨.begun, store, state⟩ : Run σ)).advance hazards resolve request now searchSteps
  rw [wholeAmid, whole, ← found.lookup]
  exact found.advance hazards resolve request now _

/-! ## Without a mishap -/

theorem stepAmid_calm (request : Request) (answer : Answer) (now : Moment) (store : Store)
    (lookup : Lookup) : lookup.stepAmid [] request answer now store = lookup.step request answer now store := by
  cases lookup with
  | hydrating aim hydration =>
      cases hydration with
      | running entry pending deadline => rfl
      | finished found entry =>
          cases aim with
          | refresh => rfl
          | promote => simp only [Lookup.stepAmid, Lookup.deliverAmid, Store.offerAmid_calm]; rfl
          | seed => simp only [Lookup.stepAmid, Lookup.deliverAmid, Store.offerAmid_calm]; rfl
  | begun => rfl
  | missed => rfl
  | judged verdict => rfl
  | joining paths => rfl
  | waiting => rfl
  | leading paths => rfl
  | landing entry => rfl
  | done answer => rfl

theorem advanceAmid_calm (steps : Nat) (run : Run σ) :
    advanceAmid [] resolve request now steps run = advance resolve request now steps run := by
  induction steps generalizing run with
  | zero => rfl
  | succ steps induction =>
      have first : run.nextAmid [] resolve request now = run.next resolve request now := by
        simp only [nextAmid, stepAmid_calm]
        rfl
      rw [advanceAmid, advance, first, induction]

end Run

namespace Store

variable {σ : Type}

theorem getAmid_refused (hazards : List Hazard) (store : Store) (resolve : Resolver σ) (state : σ)
    {request : Request} (now : Moment) (empty : request.key.isEmpty = true) :
    store.getAmid hazards resolve state request now = .error .emptyKey := by
  simp only [getAmid, Fault.checkKey, empty]
  rfl

theorem getAmid_eq (hazards : List Hazard) (store : Store) (resolve : Resolver σ) (state : σ)
    {request : Request} (now : Moment) (nonempty : request.key.isEmpty = false) :
    store.getAmid hazards resolve state request now =
      .ok ((Run.wholeAmid hazards resolve request now store state).lookup.answer?.join,
        (Run.wholeAmid hazards resolve request now store state).store,
        (Run.wholeAmid hazards resolve request now store state).state) := by
  simp only [getAmid, Fault.checkKey, nonempty]
  rfl

/-- Whatever goes wrong, a lookup does above the archive what it always does. -/
theorem above_getAmid (hazards : List Hazard) (store : Store) (resolve : Resolver σ) (state : σ)
    (request : Request) (now : Moment) :
    (store.getAmid hazards resolve state request now).map aboveGet =
      (store.get resolve state request now).map aboveGet := by
  cases empty : request.key.isEmpty with
  | true => rw [getAmid_refused hazards store resolve state now empty, get_refused store resolve state now empty]
  | false =>
      rw [getAmid_eq hazards store resolve state now empty, get_eq store resolve state now empty]
      have beside := Run.beside_whole hazards resolve request now store state
      have answers := congrArg (fun lookup => lookup.answer?.join) beside.lookup
      exact congrArg Except.ok (Prod.ext answers (Prod.ext beside.above beside.state))

/-- With nothing going wrong, a lookup is the one it always is. -/
theorem getAmid_calm (store : Store) (resolve : Resolver σ) (state : σ) (request : Request) (now : Moment) :
    store.getAmid [] resolve state request now = store.get resolve state request now := by
  simp only [getAmid, get, Run.advanceAmid_calm]

end Store

/-! ## Making room -/

namespace Recent

variable {recent : Recent} {key : String}

/-- The entries that leave to make room for a key, unless it is resident. -/
def leaving (recent : Recent) (key : String) : Keyed Entry :=
  if recent.contains key then [] else recent.slots.take recent.excess

theorem evicted_write (recent : Recent) (key : String) (entry : Entry) :
    (recent.write key entry).1 = recent.leaving key := by
  cases resident : recent.slots.has key with
  | true => rw [write_resident resident, leaving, if_pos (show recent.contains key = true from resident)]
  | false =>
      rw [write_absent resident, leaving, if_neg (by simp [contains, resident])]
      rfl

end Recent

namespace Store

variable {store after : Store}

/-- Changes of tier 1 leave tier 2 as it was. -/
theorem Spared.withRecent (spared : store.Spared after) (recent : Recent) :
    store.Spared (after.withRecent recent) := ⟨spared.archive, spared.disk⟩

/-- A put goes through although no record can be written, and leaves tier 2 as it was. -/
theorem putEntryAmid_foiled {hazards : List Hazard} {entry : Entry} (nonempty : entry.key.isEmpty = false)
    (foiled : store.cache.archive.Foiled hazards store.disk (store.cache.recent.leaving entry.key)) :
    ∃ after, store.putEntryAmid hazards entry = .ok (described store.cache entry, after) ∧
      after.cache.recent.slots.get? entry.key =
        some ((described store.cache entry).stamped store.cache.recent.nextStamp) ∧
      store.Spared after := by
  rw [putEntryAmid_eq hazards store nonempty, key_described, Recent.evicted_write]
  exact ⟨_, rfl, Recent.get?_write _ _ _, (spared_spillAllAmid foiled).withRecent _⟩

end Store

/-! ## Promotions -/

namespace Run

variable {σ : Type} {hazards : List Hazard} {request : Request} {start : Store} {entry : Entry}

/-- The disk and both tiers are the same. -/
structure Still (start store : Store) : Prop where
  disk : store.disk = start.disk
  archive : store.cache.archive = start.cache.archive
  recent : store.cache.recent = start.cache.recent

/-- Where a lookup is that promotes the entry of a record: both tiers are as they were, or the entry is in
tier 1 and tier 2 is as it was. -/
inductive Promotes (request : Request) (start : Store) (entry : Entry) : Lookup → Store → Prop where
  | begun {store : Store} (still : Still start store) : Promotes request start entry .begun store
  | missed {store : Store} (still : Still start store) : Promotes request start entry .missed store
  | judged {store : Store} (still : Still start store) :
      Promotes request start entry (.judged (.sound entry)) store
  | promoting {store : Store} {hydration : Hydration} (still : Still start store) :
      Promotes request start entry (.hydrating .promote hydration) store
  | done {store : Store} {given : Entry} (held : store.cache.recent.slots.get? request.key = some given)
      (spared : start.Spared store) : Promotes request start entry (.done (some given)) store

theorem Still.vacant {store : Store} (still : Still start store)
    (absent : start.cache.recent.contains request.key = false) :
    store.cache.recent.slots.get? request.key = none := by
  rw [still.recent]
  exact Keyed.has_eq_false_iff.1 absent

/-- An entry that is promoted comes to tier 1 although no record can be written. -/
theorem promotes_delivery {store : Store} (still : Still start store)
    (absent : start.cache.recent.contains request.key = false)
    (foiled : start.cache.archive.Foiled hazards start.disk (start.cache.recent.leaving request.key))
    (copy : Entry) (now : Moment) :
    Promotes request start entry (Lookup.deliverAmid hazards request copy now store .promote).1
      (Lookup.deliverAmid hazards request copy now store .promote).2 := by
  have vacant := still.vacant absent
  simp only [Lookup.deliverAmid, Store.offerAmid]
  rw [Recent.offer_absent vacant]
  have evicted : (store.cache.recent.advanced.insert request.key
      (copy.stamped store.cache.recent.nextStamp)).1 = start.cache.recent.leaving request.key := by
    rw [still.recent, Recent.leaving, if_neg (by simp [absent])]
    rfl
  obtain ⟨_, held, _⟩ := Recent.insert_frame
    (show store.cache.recent.advanced.slots.get? request.key = none from vacant)
    (copy.stamped store.cache.recent.nextStamp)
  have spared : store.Spared (Store.spillAllAmid hazards store (start.cache.recent.leaving request.key)) := by
    refine Store.spared_spillAllAmid ?_
    rw [still.archive, still.disk]
    exact foiled
  rw [evicted]
  refine .done held ⟨spared.archive.trans still.archive, ?_⟩
  rw [← still.archive, ← still.disk]
  exact spared.disk

theorem Promotes.step {lookup : Lookup} {store : Store} (promotes : Promotes request start entry lookup store)
    (absent : start.cache.recent.contains request.key = false)
    (sound : start.cache.archive.inspect start.disk request.key = .sound entry)
    (foiled : start.cache.archive.Foiled hazards start.disk (start.cache.recent.leaving request.key))
    (answer : Answer) (now : Moment) :
    Promotes request start entry (lookup.stepAmid hazards request answer now store).1
      (lookup.stepAmid hazards request answer now store).2 := by
  cases promotes with
  | begun still =>
      simp only [Lookup.stepAmid, Lookup.step, Recent.fetch, still.vacant absent]
      exact .missed still
  | missed still =>
      simp only [Lookup.stepAmid, Lookup.step, still.archive, still.disk, sound]
      exact .judged ⟨still.disk, still.archive, still.recent⟩
  | judged still => exact .promoting ⟨still.disk, still.archive, still.recent⟩
  | @promoting _ hydration still =>
      cases hydration with
      | finished found copy => exact promotes_delivery still absent foiled copy now
      | running held pending deadline => exact .promoting ⟨still.disk, still.archive, still.recent⟩
  | done held spared => exact .done held spared

theorem Promotes.advance (resolve : Resolver σ) (now : Moment) {run : Run σ}
    (promotes : Promotes request start entry run.lookup run.store)
    (absent : start.cache.recent.contains request.key = false)
    (sound : start.cache.archive.inspect start.disk request.key = .sound entry)
    (foiled : start.cache.archive.Foiled hazards start.disk (start.cache.recent.leaving request.key))
    (steps : Nat) : Promotes request start entry (advanceAmid hazards resolve request now steps run).lookup
      (advanceAmid hazards resolve request now steps run).store := by
  induction steps generalizing run with
  | zero => exact promotes
  | succ steps induction =>
      have next : Promotes request start entry (run.nextAmid hazards resolve request now).lookup
          (run.nextAmid hazards resolve request now).store := promotes.step absent sound foiled _ now
      exact induction next

end Run

/-- A promotion goes through although no record can be written, and leaves tier 2 as it was. -/
theorem Store.getAmid_foiled {σ : Type} {hazards : List Hazard} {store : Store} {request : Request}
    {entry : Entry} (nonempty : request.key.isEmpty = false)
    (absent : store.cache.recent.contains request.key = false)
    (sound : store.cache.archive.inspect store.disk request.key = .sound entry)
    (foiled : store.cache.archive.Foiled hazards store.disk (store.cache.recent.leaving request.key))
    (resolve : Resolver σ) (state : σ) (now : Moment) :
    ∃ given after later, store.getAmid hazards resolve state request now = .ok (some given, after, later) ∧
      after.cache.recent.slots.get? request.key = some given ∧ store.Spared after := by
  rw [getAmid_eq hazards store resolve state now nonempty]
  have begun : Run.Promotes request store entry .begun store := .begun ⟨rfl, rfl, rfl⟩
  have ended : Run.Promotes request store entry
      (Run.wholeAmid hazards resolve request now store state).lookup
      (Run.wholeAmid hazards resolve request now store state).store :=
    Run.Promotes.advance resolve now
      (Run.Promotes.advance resolve now begun absent sound foiled Run.searchSteps) absent sound foiled _
  obtain ⟨found, exhausted⟩ := Run.ended_whole resolve request now store state
  rw [← (Run.beside_whole hazards resolve request now store state).lookup] at found exhausted
  generalize Run.wholeAmid hazards resolve request now store state = run at ended found exhausted
  obtain ⟨lookup, after, later⟩ := run
  simp only at ended found exhausted
  cases ended with
  | begun still => simp [Lookup.search] at found
  | missed still => simp [Lookup.search] at found
  | judged still => simp [Lookup.search] at found
  | promoting still => simp [Lookup.remaining] at exhausted
  | @done _ given held spared => exact ⟨given, after, later, rfl, held, spared⟩

end TieredCache
