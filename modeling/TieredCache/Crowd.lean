import TieredCache.Lookup.Basic

/-!
# Crowds

A crowd is a number of callers that look keys up on one store at the same time. Its callers take their steps
in any order, and those that make the same entry anew share one flight.
-/

namespace TieredCache

/-- A caller that looks a key up. -/
structure Caller where
  request : Request
  lookup : Lookup

namespace Caller

/-- A caller that has not yet asked anything. -/
def new (request : Request) : Caller := ⟨request, .begun⟩

/-- A caller that waits for a flight goes on as soon as the flight has landed. -/
def receive (flights : Flights) (caller : Caller) : Caller :=
  { caller with lookup := caller.lookup.receive caller.request flights }

end Caller

/-- Callers on one store. -/
structure Crowd where
  store : Store
  callers : List Caller

namespace Crowd

/-- Callers that begin together. A request without a key is refused. -/
def assemble (store : Store) (requests : List Request) : Except Fault Crowd := do
  requests.forM fun request => Fault.checkKey request.key
  return ⟨store, requests.map .new⟩

/-- The path that a caller has to have answered before its next step. -/
def question? (crowd : Crowd) (index : Nat) : Option String :=
  crowd.callers[index]?.bind fun caller => caller.lookup.question?

/-- A crowd after one step of one caller. -/
def step (crowd : Crowd) (index : Nat) (answer : Answer) (now : Moment) : Crowd :=
  match crowd.callers[index]? with
  | none => crowd
  | some caller =>
    let (lookup, store) := caller.lookup.step caller.request answer now crowd.store
    { store
      callers := (crowd.callers.set index { caller with lookup }).map
        (Caller.receive store.cache.flights) }

/-- Whether a caller can go on. One that waits for a flight cannot. -/
def isReady (crowd : Crowd) (index : Nat) : Bool :=
  match crowd.callers[index]? with
  | some ⟨_, .waiting⟩ => false
  | some ⟨_, .done _⟩ => false
  | some _ => true
  | none => false

/-- The answers of the callers that are done, and nothing for the others. -/
def answers (crowd : Crowd) : List (Option Entry) :=
  crowd.callers.map fun caller => caller.lookup.answer?.join

end Crowd

/-! ## Schedules -/

/-- A step of one caller. The answer is the one to its question, if it has one. -/
structure Turn where
  index : Nat
  answer : Answer
  now : Moment

namespace Crowd

/-- A crowd after one turn. -/
def turn (crowd : Crowd) (turn : Turn) : Crowd := crowd.step turn.index turn.answer turn.now

/-- A crowd after a schedule. -/
def run : Crowd → List Turn → Crowd
  | crowd, [] => crowd
  | crowd, turn :: later => run (crowd.turn turn) later

/-- What a resolver is asked for in a schedule, and what it answers, in order. -/
def pass : Crowd → List Turn → Pass
  | _, [] => []
  | crowd, turn :: later =>
    turn.answer.entered (crowd.question? turn.index) ++ pass (crowd.turn turn) later

/-- Every turn of a schedule is that of a caller that can go on when it comes. -/
def Admits : Crowd → List Turn → Prop
  | _, [] => True
  | crowd, turn :: later => crowd.isReady turn.index = true ∧ Admits (crowd.turn turn) later

instance decidableAdmits : (crowd : Crowd) → (turns : List Turn) → Decidable (crowd.Admits turns)
  | _, [] => .isTrue trivial
  | crowd, turn :: later =>
    @instDecidableAnd _ _ inferInstance (decidableAdmits (crowd.turn turn) later)

end Crowd

end TieredCache
