import TieredCache.Calls

/-!
# Overlapped lookups

A lookup that other callers overtake: while it has a record in hand, or asks its resolver, they make
calls of their own. A schedule says in which order its steps and their calls come.
-/

namespace TieredCache

/-- What happens next while a lookup is under way. -/
inductive Event where
  /-- The lookup takes its next step. The answer is the one to its question. -/
  | step (answer : Answer) (now : Moment)
  /-- Another caller makes a call. -/
  | call (made : Call) (now : Moment)

namespace Event

/-- The call of another caller. -/
def call? : Event → Option Call
  | .call made _ => some made
  | .step _ _ => none

end Event

/-- Whether other callers get their turn: a record has been judged, or a hydration is under way. -/
def Lookup.isOpen : Lookup → Bool
  | .judged _ => true
  | .hydrating _ _ => true
  | _ => false

namespace Run

variable {σ : Type}

/-- A run after an event. Other callers have the same resolver, which makes no calls for them. -/
def after (resolve : Resolver σ) (request : Request) (run : Run σ) : Event → Run σ
  | .step answer now =>
    let (lookup, store) := run.lookup.step request answer now run.store
    { run with lookup, store }
  | .call made now =>
    let (_, store, state) := run.store.call resolve run.state now made
    { run with store, state }

/-- A run after a schedule. -/
def through (resolve : Resolver σ) (request : Request) : Run σ → List Event → Run σ
  | run, [] => run
  | run, event :: later => through resolve request (run.after resolve request event) later

/-- Whether an event can be next. -/
def admits (run : Run σ) : Event → Bool
  | .step _ _ => true
  | .call _ _ => run.lookup.isOpen

/-- Every event of a schedule can be next when it comes. -/
def Admits (resolve : Resolver σ) (request : Request) : Run σ → List Event → Prop
  | _, [] => True
  | run, event :: later =>
    run.admits event = true ∧ Admits resolve request (run.after resolve request event) later

end Run

end TieredCache
