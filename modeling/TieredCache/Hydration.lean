import TieredCache.Entry.Basic
import TieredCache.Fault

/-!
# Hydration

A hydration offers the reference paths of an entry to a resolver, one after the other, and keeps the
artifacts that come back. Between a question and its answer other callers may act, so a hydration is a
state that waits for an answer. A deadline is given by how many questions are asked before it passes.
-/

namespace TieredCache

/-- What a resolver answers for a path. -/
inductive Answer where
  | found (artifact : Artifact)
  | unknown
  | failed
  deriving DecidableEq, Repr

/-- What an answer gives notice of. -/
def Answer.notices : Answer → List Notice
  | .failed => [.failedResolver]
  | _ => []

/-- The entry after an answer for one of its paths. -/
def Entry.receive (entry : Entry) (path : String) : Answer → Entry
  | .found artifact => entry.resolve path artifact
  | .unknown => entry
  | .failed => entry

/-- What a resolver was asked for, and what it answered, in order. -/
abbrev Pass := List (String × Answer)

/-- The question of a step with the answer to it, if there is one. -/
def Answer.entered (answer : Answer) (question : Option String) : Pass :=
  question.toList.map fun path => (path, answer)

/-- A step that asks nothing adds nothing to a pass. -/
theorem Pass.append_silent {question : Option String} (silent : question = none) (pass : Pass)
    (answer : Answer) : pass ++ answer.entered question = pass := by
  rw [silent]
  exact List.append_nil pass

/-- The entry after the answers of a pass, one after the other. -/
def Entry.receiveAll (entry : Entry) (pass : Pass) : Entry :=
  pass.foldl (fun entry asked => entry.receive asked.1 asked.2) entry

/-- Answers a path, from a state of its own to the next. -/
abbrev Resolver (σ : Type) := σ → String → Answer × σ

/-- A hydration. -/
inductive Hydration where
  /-- The paths in `pending` have not been asked for. -/
  | running (entry : Entry) (pending : List String) (deadline : Option Nat)
  /-- Whether the entry holds an artifact, and the entry. -/
  | finished (found : Bool) (entry : Entry)

namespace Hydration

/-- Begins to hydrate an entry. There is nothing to do for one that has artifacts, and nothing can be
done without a resolver. -/
def begin (resolving : Bool) (entry : Entry) (deadline : Option Nat) : Hydration :=
  if entry.hydrated && !entry.artifacts.isEmpty then .finished true entry
  else if resolving then .running entry entry.paths deadline
  else .finished false entry

/-- The path that a resolver is asked for. After the deadline there is none. -/
def question? : Hydration → Option String
  | .running _ (_ :: _) (some 0) => none
  | .running _ (path :: _) _ => some path
  | _ => none

/-- Ends a hydration. It is complete if every path was asked for. -/
def close (entry : Entry) (complete : Bool) : Hydration :=
  let entry := entry.finish complete
  .finished (!entry.artifacts.isEmpty) entry

/-- Goes on with a hydration. The answer is the one to its question; it is not used if there is none. -/
def step (answer : Answer) : Hydration → Hydration × List Notice
  | .running entry [] _ => (close entry true, [])
  | .running entry (_ :: _) (some 0) => (close entry false, [.passedDeadline])
  | .running entry (path :: pending) deadline =>
    (.running (entry.receive path answer) pending (deadline.map (· - 1)), answer.notices)
  | .finished found entry => (.finished found entry, [])

/-- The most steps that a hydration can still take before it is finished. -/
def remaining : Hydration → Nat
  | .running _ pending _ => pending.length + 1
  | .finished _ _ => 0

theorem remaining_step (answer : Answer) (hydration : Hydration) :
    (hydration.step answer).1.remaining ≤ hydration.remaining - 1 := by
  unfold step
  split <;> simp [remaining, close]

/-- Whether the entry holds an artifact, and the entry. -/
def answer : Hydration → Bool × Entry
  | .running entry _ _ => (!entry.artifacts.isEmpty, entry)
  | .finished found entry => (found, entry)

/-- Goes on with a hydration for a number of steps, with the answers of a resolver. -/
def advance {σ : Type} (resolve : Resolver σ) : Nat → Hydration → σ → Hydration × List Notice × σ
  | 0, hydration, state => (hydration, [], state)
  | steps + 1, hydration, state =>
    let (answer, state) :=
      match hydration.question? with
      | some path => resolve state path
      | none => (.unknown, state)
    let (hydration, notices) := hydration.step answer
    let (hydration, later, state) := advance resolve steps hydration state
    (hydration, notices ++ later, state)

end Hydration

end TieredCache
