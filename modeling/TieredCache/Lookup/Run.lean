import TieredCache.Lookup.Basic

/-!
# Runs

A run is a lookup that nobody disturbs, with a resolver that answers at once. It needs five steps until it
has its entry or knows that there is none, and after that one step for each path and three more.
-/

namespace TieredCache

/-- A lookup with the store that it works on and the state of its resolver. -/
structure Run (σ : Type) where
  lookup : Lookup
  store : Store
  state : σ

namespace Run

variable {σ : Type}

/-- A run after one step. -/
def next (resolve : Resolver σ) (request : Request) (now : Moment) (run : Run σ) : Run σ :=
  let (answer, state) :=
    match run.lookup.question? with
    | some path => resolve run.state path
    | none => (.unknown, run.state)
  let (lookup, store) := run.lookup.step request answer now run.store
  ⟨lookup, store, state⟩

/-- A run after a number of steps. -/
def advance (resolve : Resolver σ) (request : Request) (now : Moment) : Nat → Run σ → Run σ
  | 0, run => run
  | steps + 1, run => advance resolve request now steps (run.next resolve request now)

/-- The most steps until a lookup has its entry or knows that there is none. -/
def searchSteps : Nat := 5

end Run

/-- The most steps that a lookup can take once it has its entry. -/
def Lookup.remaining : Lookup → Nat
  | .hydrating _ hydration => hydration.remaining + 2
  | .landing _ => 1
  | _ => 0

namespace Store

variable {σ : Type}

/-- Looks a key up. -/
def get (store : Store) (resolve : Resolver σ) (state : σ) (request : Request) (now : Moment) :
    Except Fault (Option Entry × Store × σ) := do
  Fault.checkKey request.key
  let found := Run.advance resolve request now Run.searchSteps ⟨.begun, store, state⟩
  let run := Run.advance resolve request now found.lookup.remaining found
  return (run.lookup.answer?.join, run.store, run.state)

/-- Hydrates an entry that a caller holds. The answer says whether it has an artifact afterwards. -/
def hydrate (store : Store) (resolve : Resolver σ) (state : σ) (entry : Entry) :
    Bool × Entry × Store × σ :=
  let hydration := Hydration.begin store.cache.resolving entry none
  let (hydration, notices, state) := Hydration.advance resolve hydration.remaining hydration state
  let (found, entry) := hydration.answer
  (found, entry, store.note notices, state)

end Store

end TieredCache
