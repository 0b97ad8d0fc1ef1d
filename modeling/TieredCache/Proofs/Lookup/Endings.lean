import TieredCache.Proofs.Lookup.Front

/-!
# How a lookup ends

It is decided at one step of a lookup how it ends: where tier 1 has its key, or where tier 2 has loaded a
record or not. It is counted there, unless the entry is made anew, which is counted at the end.
-/

namespace TieredCache

/-- How many lookups ended in a given way. -/
def Tally.of (tally : Tally) : Ending → UInt64
  | .recentHit => tally.recentHits
  | .archiveHit => tally.archiveHits
  | .rebuild => tally.rebuilds
  | .miss => tally.misses

theorem Tally.of_count (tally : Tally) (counted ending : Ending) :
    (tally.count counted).of ending = tally.of ending + .ofNat (decide (counted = ending)).toNat := by
  cases counted <;> cases ending <;> simp [count, of]

namespace Lookup

/-- How a lookup ends, if that is decided at its next step. -/
def fate? (request : Request) (store : Store) : Lookup → Option Ending
  | .begun => if store.cache.recent.contains request.key then some .recentHit else none
  | .judged verdict =>
    match (store.cache.archive.settle store.disk request.key verdict).answer with
    | some _ => some .archiveHit
    | none => if request.paths.isSome && store.cache.resolving then some .rebuild else some .miss
  | _ => none

/-- Whether the entry of a lookup is being made anew. -/
def isMaking : Lookup → Bool
  | .joining _ => true
  | .waiting => true
  | .leading _ => true
  | .hydrating .seed _ => true
  | .landing _ => true
  | _ => false

/-- Whether the ending of a lookup has been decided and is not yet counted. -/
def owes (ending : Ending) (lookup : Lookup) : Bool := ending = .rebuild && lookup.isMaking

/-- Where a lookup can stand, by how it ends or before that is decided. -/
inductive Led : Option Ending → Lookup → Prop where
  | begun : Led none .begun
  | missed : Led none .missed
  | judged (verdict : Archive.Verdict) : Led none (.judged verdict)
  | refreshing (hydration : Hydration) : Led (some .recentHit) (.hydrating .refresh hydration)
  | promoting (hydration : Hydration) : Led (some .archiveHit) (.hydrating .promote hydration)
  | making {lookup : Lookup} (makes : lookup.isMaking = true) : Led (some .rebuild) lookup
  | done {ending : Ending} {answer : Option Entry} (same : answer = none ↔ ending = .miss) :
      Led (some ending) (.done answer)

variable {fate : Option Ending} {lookup : Lookup} {request : Request} {store : Store}

/-- Receiving a flight decides nothing. -/
theorem receive_cases (request : Request) (flights : Flights) (lookup : Lookup) :
    lookup.receive request flights = lookup ∨
      (lookup = .waiting ∧ ∃ entry, lookup.receive request flights = .landing entry) := by
  cases lookup with
  | waiting =>
      rw [receive]
      cases flights.landed? request.key with
      | none => exact .inl rfl
      | some entry => exact .inr ⟨rfl, entry, rfl⟩
  | _ => exact .inl rfl

@[simp] theorem isMaking_receive (request : Request) (flights : Flights) (lookup : Lookup) :
    (lookup.receive request flights).isMaking = lookup.isMaking := by
  rcases receive_cases request flights lookup with same | ⟨rfl, entry, received⟩
  · rw [same]
  · rw [received]
    rfl

theorem Led.receive (led : lookup.Led fate) (request : Request) (flights : Flights) :
    (lookup.receive request flights).Led fate := by
  rcases receive_cases request flights lookup with same | ⟨rfl, entry, received⟩
  · rw [same]
    exact led
  · rw [received]
    cases led with
    | making makes => exact .making rfl

/-- An entry that is being made anew is being made until it is there. -/
theorem making_step (makes : lookup.isMaking = true) (answer : Answer) (now : Moment) :
    (lookup.step request answer now store).1.isMaking = true ∨
      ∃ entry, lookup = .landing entry ∧
        (lookup.step request answer now store).1 = .done (some entry) := by
  cases lookup with
  | joining paths =>
      left
      simp only [step, join]
      split <;> rfl
  | waiting => exact .inl rfl
  | leading paths =>
      left
      simp only [step, lead]
      split <;> rfl
  | hydrating aim hydration =>
      left
      cases aim with
      | seed => cases hydration <;> rfl
      | refresh => cases makes
      | promote => cases makes
  | landing entry => exact .inr ⟨entry, rfl, rfl⟩
  | begun => cases makes
  | missed => cases makes
  | judged verdict => cases makes
  | done answer => cases makes

/-- It is decided once how a lookup ends. -/
theorem Led.decided {ending : Ending} (led : lookup.Led (some ending)) (request : Request) (store : Store) :
    lookup.fate? request store = none := by
  cases led with
  | refreshing hydration => rfl
  | promoting hydration => rfl
  | making makes => cases lookup <;> first | rfl | cases makes
  | done same => rfl

/-- A step takes a lookup where it is led, and may decide how it ends. -/
theorem Led.step (led : lookup.Led fate) (answer : Answer) (now : Moment) :
    (lookup.step request answer now store).1.Led (fate.or (lookup.fate? request store)) := by
  cases led with
  | begun =>
      cases held : store.cache.recent.slots.get? request.key with
      | none =>
          simp only [Lookup.step, fate?, Recent.fetch, Recent.contains, Keyed.has, held]
          exact .missed
      | some entry =>
          simp only [Lookup.step, fate?, Recent.fetch, Recent.contains, Keyed.has, held,
            Option.isSome_some, if_true, ofRecent]
          split
          · exact .refreshing _
          · exact .done (by simp)
  | missed => exact .judged _
  | judged verdict =>
      simp only [Lookup.step, fate?]
      cases (store.cache.archive.settle store.disk request.key verdict).answer with
      | some entry => exact .promoting _
      | none =>
          simp only [ofPaths]
          cases request.paths with
          | none => exact .done (by simp)
          | some paths =>
              cases resolving : store.cache.resolving with
              | true =>
                  simp only [Store.carryOut, resolving, Option.isSome]
                  exact .making rfl
              | false =>
                  simp only [Store.carryOut, resolving, Option.isSome]
                  exact .done (by simp)
  | refreshing hydration =>
      cases hydration with
      | running entry pending deadline => exact .refreshing _
      | finished found entry => exact .done (by simp)
  | promoting hydration =>
      cases hydration with
      | running entry pending deadline => exact .promoting _
      | finished found entry => exact .done (by simp)
  | making makes =>
      rcases making_step makes answer now with still | ⟨entry, rfl, landed⟩
      · exact .making still
      · rw [landed]
        exact .done (by simp)
  | done same => exact .done same

/-- An entry that is being made anew is counted when its making is over, and every other lookup when it is
decided how it ends. -/
theorem owes_step (request : Request) (store : Store) (lookup : Lookup) (answer : Answer) (now : Moment)
    (ending : Ending) :
    (decide (lookup.ending? store.setup request (store.share request.key) = some ending)).toNat +
        ((lookup.step request answer now store).1.owes ending).toNat =
      (decide (lookup.fate? request store = some ending)).toNat + (lookup.owes ending).toNat := by
  cases lookup with
  | begun =>
      have slot : (store.share request.key).slot = store.cache.recent.slots.get? request.key := rfl
      cases held : store.cache.recent.slots.get? request.key with
      | none =>
          simp [Lookup.step, fate?, ending?, Recent.fetch, Recent.contains, Keyed.has, slot, held, owes,
            isMaking]
      | some entry =>
          simp only [Lookup.step, fate?, ending?, Recent.fetch, Recent.contains, Keyed.has, slot, held,
            Option.isSome_some, if_true, ofRecent, Option.map_some]
          split <;> simp [owes, isMaking]
  | missed => simp [Lookup.step, fate?, ending?, owes, isMaking]
  | judged verdict =>
      cases found : verdict.found? with
      | some entry =>
          simp [Lookup.step, fate?, ending?, Archive.answer_settle, found, ofArchive, owes, isMaking]
      | none =>
          simp only [Lookup.step, fate?, ending?, Archive.answer_settle, found, ofPaths, Store.setup]
          cases supplied : request.paths with
          | none => simp [owes, isMaking]
          | some paths =>
              by_cases resolving : store.cache.resolving = true
              · cases ending <;> simp [Store.carryOut, resolving, owes, isMaking]
              · simp [Store.carryOut, resolving, owes, isMaking]
  | landing entry => cases ending <;> simp [Lookup.step, fate?, ending?, owes, isMaking]
  | hydrating aim hydration =>
      cases aim <;> cases hydration <;>
        simp [Lookup.step, deliver, fate?, ending?, owes, isMaking]
  | done given => simp [Lookup.step, fate?, ending?, owes, isMaking]
  | joining paths =>
      have makes : (Lookup.joining paths).isMaking = true := rfl
      rcases @making_step _ request store makes answer now with still | ⟨_, never, _⟩
      · simp [fate?, ending?, owes, still, makes]
      · cases never
  | waiting => simp [Lookup.step, fate?, ending?, owes, isMaking]
  | leading paths =>
      have makes : (Lookup.leading paths).isMaking = true := rfl
      rcases @making_step _ request store makes answer now with still | ⟨_, never, _⟩
      · simp [fate?, ending?, owes, still, makes]
      · cases never

/-- What a step adds to the tally and to what is owed is what it decides. -/
theorem tally_step (request : Request) (store : Store) (lookup : Lookup) (answer : Answer) (now : Moment)
    (ending : Ending) :
    (lookup.step request answer now store).2.cache.tally.of ending +
        .ofNat ((lookup.step request answer now store).1.owes ending).toNat =
      store.cache.tally.of ending + .ofNat (lookup.owes ending).toNat +
        .ofNat (decide (lookup.fate? request store = some ending)).toNat := by
  have balance := owes_step request store lookup answer now ending
  rw [(fronts_step store request lookup answer now).tally]
  have counted : ((lookup.ending? store.setup request (store.share request.key)).elim store.cache.tally
      store.cache.tally.count).of ending = store.cache.tally.of ending + .ofNat
        (decide (lookup.ending? store.setup request (store.share request.key) = some ending)).toNat := by
    cases lookup.ending? store.setup request (store.share request.key) with
    | none => simp
    | some counted => simp [Tally.of_count]
  rw [counted, UInt64.add_assoc, UInt64.add_assoc, ← UInt64.ofNat_add, ← UInt64.ofNat_add, balance,
    Nat.add_comm]

end Lookup

end TieredCache
