import TieredCache.Proofs.Lookup.Sequential
import TieredCache.Proofs.Recent.Clocks

/-!
# Stores side by side

Two stores that look the same from tier 1 go on doing so: a put writes the same to both, and a lookup of a
resident key takes the same steps on both, whatever is in their archives and on their disks, and whatever
the clock says.
-/

namespace TieredCache

/-! ## Hydrations without clocks -/

namespace Hydration

/-- A hydration of an entry without the moment of its last read. -/
def timeless : Hydration → Hydration
  | .running entry pending deadline => .running entry.timeless pending deadline
  | .finished found entry => .finished found entry.timeless

theorem begin_timeless (resolving : Bool) (entry : Entry) (deadline : Option Nat) :
    begin resolving entry.timeless deadline = (begin resolving entry deadline).timeless := by
  rw [begin, begin, apply_ite Hydration.timeless, apply_ite Hydration.timeless]
  rfl

theorem close_timeless (entry : Entry) (complete : Bool) :
    close entry.timeless complete = (close entry complete).timeless := by
  have finished : entry.timeless.finish complete = (entry.finish complete).timeless := by
    rw [Entry.finish, Entry.finish, apply_ite Entry.timeless]
    rfl
  simp only [close, finished]
  rfl

theorem step_timeless (answer : Answer) (hydration : Hydration) :
    hydration.timeless.step answer =
      ((hydration.step answer).1.timeless, (hydration.step answer).2) := by
  cases hydration with
  | finished found entry => rfl
  | running entry pending deadline =>
      cases pending with
      | nil => exact Prod.ext (close_timeless entry true) rfl
      | cons path pending =>
          have received : entry.timeless.receive path answer = (entry.receive path answer).timeless := by
            cases answer <;> rfl
          rcases deadline with _ | _ | left
          · exact Prod.ext (congrArg (running · pending none) received) rfl
          · exact Prod.ext (close_timeless entry false) rfl
          · exact Prod.ext (congrArg (running · pending (some left)) received) rfl

theorem question?_timeless (hydration : Hydration) : hydration.timeless.question? = hydration.question? := by
  cases hydration with
  | finished found entry => rfl
  | running entry pending deadline =>
      rcases pending with _ | ⟨path, pending⟩
      · rfl
      · rcases deadline with _ | _ | left <;> rfl

theorem remaining_timeless (hydration : Hydration) : hydration.timeless.remaining = hydration.remaining := by
  cases hydration <;> rfl

end Hydration

/-! ## Fronts -/

namespace Store

/-- What tier 1 goes by: its entries without the moments of their last reads, and the settings of the
cache. Of the disk and the archive there is nothing in it. -/
structure Front where
  recent : Recent
  autoHydrate : Bool
  resolving : Bool
  describer : Option Describer

/-- The front of a store. -/
def front (store : Store) : Front where
  recent := store.cache.recent.timeless
  autoHydrate := store.cache.autoHydrate
  resolving := store.cache.resolving
  describer := store.cache.describer

/-- What of a put shows in front: its answer, and the front that it leaves. -/
def Front.ofPut : Entry × Store → Entry × Front
  | (entry, store) => (entry, store.front)

/-- What of a lookup shows in front: its answer without the moment of the last read, the front that it
leaves, and the state of the resolver. -/
def Front.ofGet {σ : Type} : Option Entry × Store × σ → Option Entry × Front × σ
  | (answer, store, state) => (answer.map Entry.timeless, store.front, state)

variable {left right : Store}

/-- Fronts that are the same stay so after uses that differ in readings of the clock alone. -/
theorem front_congr (same : left.front = right.front) {use other : Use}
    (alike : use.timeless = other.timeless) {after later : Store}
    (after_eq : after.front = (left.withRecent (left.cache.recent.after use)).front)
    (later_eq : later.front = (right.withRecent (right.cache.recent.after other)).front) :
    after.front = later.front := by
  have recent := Recent.after_congr (congrArg Front.recent same) alike
  rw [after_eq, later_eq]
  simp only [front, withRecent, recent, Front.mk.injEq] at same ⊢
  exact ⟨trivial, same.2⟩

theorem front_written (store : Store) (entry : Entry) :
    (store.written entry).front =
      (store.withRecent (store.cache.recent.after (.write entry.key entry))).front := by
  obtain ⟨cache, _⟩ := store.spillAll_frame (store.cache.recent.write entry.key entry).1
  rw [written, front, front]
  simp only [withRecent]
  rw [cache]
  rfl

/-- A put gives the same answer on stores with the same front, and leaves the same front. -/
theorem front_putEntry (same : left.front = right.front) (entry : Entry) :
    (left.putEntry entry).map Front.ofPut = (right.putEntry entry).map Front.ofPut := by
  cases empty : entry.key.isEmpty with
  | true => rw [putEntry_refused left empty, putEntry_refused right empty]
  | false =>
      have describers : left.cache.describer = right.cache.describer := congrArg Front.describer same
      have described_eq : described left.cache entry = described right.cache entry := by
        simp only [described, describers]
      rw [putEntry_eq empty, putEntry_eq empty, described_eq]
      have fronts := front_congr same rfl (front_written left (described right.cache entry))
        (front_written right (described right.cache entry))
      exact congrArg Except.ok (Prod.ext rfl fronts)

end Store

/-! ## Lookups of a resident key -/

namespace Lookup

/-- Two lookups of a resident key are in the same phase, with copies that differ in readings of the clock
alone. -/
inductive Abreast : Lookup → Lookup → Prop where
  | refreshing {left right : Hydration} (same : left.timeless = right.timeless) :
      Abreast (.hydrating .refresh left) (.hydrating .refresh right)
  | done {left right : Option Entry} (same : left.map Entry.timeless = right.map Entry.timeless) :
      Abreast (.done left) (.done right)

variable {left right : Lookup} {store other : Store} {request : Request}

theorem Abreast.question? (abreast : left.Abreast right) : left.question? = right.question? := by
  cases abreast with
  | refreshing same =>
      have questions := congrArg Hydration.question? same
      rwa [Hydration.question?_timeless, Hydration.question?_timeless] at questions
  | done same => rfl

theorem Abreast.remaining (abreast : left.Abreast right) : left.remaining = right.remaining := by
  cases abreast with
  | refreshing same =>
      have steps := congrArg Hydration.remaining same
      rw [Hydration.remaining_timeless, Hydration.remaining_timeless] at steps
      exact congrArg (· + 2) steps
  | done same => rfl

theorem Abreast.answer? (abreast : left.Abreast right) :
    left.answer?.join.map Entry.timeless = right.answer?.join.map Entry.timeless := by
  cases abreast with
  | refreshing same => rfl
  | done same => exact same

/-- With the same answer, both take the same step. -/
theorem Abreast.step (abreast : left.Abreast right) (fronts : store.front = other.front) (answer : Answer)
    (now later : Moment) :
    (left.step request answer now store).1.Abreast (right.step request answer later other).1 ∧
      (left.step request answer now store).2.front = (right.step request answer later other).2.front := by
  cases abreast with
  | done same => exact ⟨.done same, fronts⟩
  | @refreshing hydration twin same =>
      cases hydration with
      | finished found copy =>
          cases twin with
          | running entry pending deadline => cases same
          | finished found twin =>
              have copies := (Hydration.finished.inj same).2
              have uses : (Use.adopt request.key copy).timeless = (Use.adopt request.key twin).timeless :=
                congrArg (Use.adopt request.key) copies
              exact ⟨.done (congrArg some copies), Store.front_congr fronts uses rfl rfl⟩
      | running entry pending deadline =>
          cases twin with
          | finished found entry => cases same
          | running entry' pending' deadline' =>
              have stepped := congrArg (Hydration.step answer) same
              rw [Hydration.step_timeless, Hydration.step_timeless] at stepped
              exact ⟨.refreshing (Prod.mk.inj stepped).1, fronts⟩

/-- A lookup of a resident key goes on with the entry of its slot, read once more. -/
theorem step_begun {entry : Entry} (held : store.cache.recent.slots.get? request.key = some entry)
    (answer : Answer) (now : Moment) :
    Lookup.begun.step request answer now store =
      (afterSlot store.setup request (entry.touch now),
        (store.withRecent (store.cache.recent.after (.fetch request.key now))).count .recentHit) := by
  simp only [Lookup.step, Recent.after, Recent.serve, Recent.fetch, held, ofRecent_eq]
  rfl

theorem abreast_afterSlot {entry twin : Entry} (same : entry.timeless = twin.timeless)
    (fronts : store.front = other.front) :
    (afterSlot store.setup request entry).Abreast (afterSlot other.setup request twin) := by
  have hydrates : store.setup.autoHydrate = other.setup.autoHydrate := congrArg Store.Front.autoHydrate fronts
  have resolves : store.setup.resolving = other.setup.resolving := congrArg Store.Front.resolving fronts
  have hydrated : entry.hydrated = twin.hydrated := (congrArg Entry.hydrated same :)
  rw [afterSlot, afterSlot, hydrates, resolves, hydrated]
  by_cases goes : (other.setup.autoHydrate && !twin.hydrated) = true
  · rw [if_pos goes, if_pos goes]
    refine .refreshing ?_
    rw [← Hydration.begin_timeless, ← Hydration.begin_timeless, same]
  · rw [if_neg goes, if_neg goes]
    exact .done (congrArg some same :)

/-- A lookup of a resident key begins alike on stores with the same front. -/
theorem abreast_begun (fronts : store.front = other.front)
    (resident : store.cache.recent.contains request.key = true) (answer : Answer) (now later : Moment) :
    (Lookup.begun.step request answer now store).1.Abreast
        (Lookup.begun.step request answer later other).1 ∧
      (Lookup.begun.step request answer now store).2.front =
        (Lookup.begun.step request answer later other).2.front := by
  obtain ⟨entry, held⟩ := Option.isSome_iff_exists.1 resident
  have slots := congrArg (fun front => front.recent.slots.get? request.key) fronts
  simp only [Store.front, Recent.get?_timeless] at slots
  rw [show store.cache.recent.slots.get? request.key = some entry from held] at slots
  obtain ⟨twin, twin_held, same⟩ := Option.map_eq_some_iff.1 slots.symm
  rw [step_begun held, step_begun twin_held]
  have touched : (entry.touch now).timeless = (twin.touch later).timeless :=
    congrArg (Entry.touch · .epoch) same.symm
  have uses : (Use.fetch request.key now).timeless = (Use.fetch request.key later).timeless := rfl
  exact ⟨abreast_afterSlot touched fronts, Store.front_congr fronts uses rfl rfl⟩

end Lookup

namespace Run

variable {σ : Type} {left right : Run σ} (resolve : Resolver σ) (request : Request) (now later : Moment)

/-- Two runs for a resident key are in the same phase, on stores with the same front. -/
structure Abreast (left right : Run σ) : Prop where
  lookup : left.lookup.Abreast right.lookup
  front : left.store.front = right.store.front
  state : left.state = right.state

theorem Abreast.next (abreast : left.Abreast right) :
    (left.next resolve request now).Abreast (right.next resolve request later) := by
  obtain ⟨lookup, store, state⟩ := left
  obtain ⟨twin, other, state⟩ := right
  obtain ⟨phases, fronts, rfl⟩ := abreast
  simp only at phases fronts
  simp only [Run.next, phases.question?]
  obtain ⟨lookups, fronts⟩ := @Lookup.Abreast.step _ _ _ _ request phases fronts _ now later
  exact ⟨lookups, fronts, rfl⟩

theorem Abreast.advance (abreast : left.Abreast right) (steps : Nat) :
    (advance resolve request now steps left).Abreast (advance resolve request later steps right) := by
  induction steps generalizing left right with
  | zero => exact abreast
  | succ steps induction => exact induction (abreast.next resolve request now later)

/-- The whole runs for a resident key are abreast on stores with the same front. -/
theorem abreast_whole {request : Request} {store other : Store} (fronts : store.front = other.front)
    (resident : store.cache.recent.contains request.key = true) (state : σ) :
    (whole resolve request now store state).Abreast (whole resolve request later other state) := by
  obtain ⟨lookups, fronts⟩ := Lookup.abreast_begun fronts resident .unknown now later
  have first : (next resolve request now ⟨.begun, store, state⟩).Abreast
      (next resolve request later ⟨.begun, other, state⟩) := ⟨lookups, fronts, rfl⟩
  have found : (advance resolve request now searchSteps ⟨.begun, store, state⟩).Abreast
      (advance resolve request later searchSteps ⟨.begun, other, state⟩) :=
    first.advance resolve request now later 4
  have ended := found.advance resolve request now later
    (advance resolve request now searchSteps ⟨.begun, store, state⟩).lookup.remaining
  rw [whole, whole, ← found.lookup.remaining]
  exact ended

end Run

/-- A lookup of a resident key gives the same answer on stores with the same front, and leaves the same
front, clock readings aside. -/
theorem Store.front_get {σ : Type} {left right : Store} (same : left.front = right.front)
    (resolve : Resolver σ) (state : σ) {request : Request}
    (resident : left.cache.recent.contains request.key = true) (now later : Moment) :
    (left.get resolve state request now).map Front.ofGet =
      (right.get resolve state request later).map Front.ofGet := by
  cases empty : request.key.isEmpty with
  | true => rw [get_refused left resolve state now empty, get_refused right resolve state later empty]
  | false =>
      rw [get_eq left resolve state now empty, get_eq right resolve state later empty]
      have ended := Run.abreast_whole resolve now later same resident state
      exact congrArg Except.ok (Prod.ext ended.lookup.answer? (Prod.ext ended.front ended.state))

end TieredCache
