import TieredCache.Store

/-!
# Lookups

A lookup asks tier 1, then tier 2, and then makes the entry anew from the paths that its caller gave. Other
callers may act between its steps, so each step works on the store as it is by then.
-/

namespace TieredCache

/-- What a lookup is for. -/
structure Request where
  key : String
  /-- The paths to make the entry anew from, if both tiers miss. -/
  paths : Option (List String) := none
  /-- How many questions are asked before the deadline passes; none for no deadline. -/
  deadline : Option Nat := none
  deriving DecidableEq, Repr

/-- Where an entry goes after its hydration. -/
inductive Aim where
  /-- Its slot in tier 1 takes over the artifacts. -/
  | refresh
  /-- It came from tier 2 and goes to tier 1. -/
  | promote
  /-- It was made anew and goes to tier 1. -/
  | seed
  deriving DecidableEq, Repr

/-- A lookup between two steps. -/
inductive Lookup where
  /-- Nothing has been asked. -/
  | begun
  /-- Tier 1 has missed. -/
  | missed
  /-- Tier 2 has looked at the record. -/
  | judged (verdict : Archive.Verdict)
  /-- Both tiers have missed, and the entry can be made anew. -/
  | joining (paths : List String)
  /-- Another caller makes the entry. -/
  | waiting
  /-- This caller makes the entry, unless it has come to tier 1. -/
  | leading (paths : List String)
  | hydrating (aim : Aim) (hydration : Hydration)
  /-- The flight has landed with the entry. -/
  | landing (entry : Entry)
  | done (answer : Option Entry)

namespace Store

/-! ## Parts of a step -/

/-- Begins the hydration of an entry that a lookup has. -/
def hydration (store : Store) (request : Request) (entry : Entry) : Hydration :=
  .begin store.cache.resolving entry request.deadline

/-- Writes an entry to tier 1 unless its key is resident. The entry that tier 1 then holds comes with
the result. -/
def offer (store : Store) (key : String) (entry : Entry) (now : Moment) : Entry × Store :=
  let (entry, evicted, recent) := store.cache.recent.offer key entry now
  (entry, (store.spillAll evicted).withRecent recent)

/-- Lands the flight of a key. -/
def land (store : Store) (key : String) (entry : Entry) : Store :=
  store.withFlights (store.cache.flights.put key (.landed entry))

end Store

namespace Lookup

/-- Goes on from tier 1 with the entry that it holds. -/
def ofRecent (request : Request) (store : Store) (entry : Entry) : Lookup × Store :=
  if store.cache.autoHydrate && !entry.hydrated then
    (.hydrating .refresh (store.hydration request entry), store.count .recentHit)
  else (.done (some entry), store.count .recentHit)

/-- Goes on from tier 2 with the entry of a record. It counts as read before it is hydrated. -/
def ofArchive (request : Request) (store : Store) (entry : Entry) (now : Moment) :
    Lookup × Store :=
  let entry := entry.touch now
  let hydration : Hydration :=
    if store.cache.autoHydrate then store.hydration request entry else .finished false entry
  (.hydrating .promote hydration, store.count .archiveHit)

/-- Goes on after both tiers have missed. -/
def ofPaths (request : Request) (store : Store) : Lookup × Store :=
  match request.paths with
  | none => (.done none, store.count .miss)
  | some paths =>
    if store.cache.resolving then (.joining paths, store)
    else (.done none, (store.note [.missingResolver]).count .miss)

/-- Takes the flight of a key, or shares it. -/
def join (request : Request) (paths : List String) (store : Store) : Lookup × Store :=
  match store.cache.flights.get? request.key with
  | some (.landed entry) => (.landing entry, store)
  | some .aloft => (.waiting, store)
  | none => (.leading paths, store.withFlights (store.cache.flights.put request.key .aloft))

/-- Makes the entry anew, unless another caller has brought it to tier 1. -/
def lead (request : Request) (paths : List String) (now : Moment) (store : Store) :
    Lookup × Store :=
  match store.cache.recent.fetch request.key now with
  | (some entry, recent) =>
    (.landing entry, (store.withRecent recent).land request.key entry)
  | (none, _) =>
    (.hydrating .seed (store.hydration request (.new request.key paths now)), store)

/-- Puts an entry where it goes after its hydration. One that was made anew counts as read. -/
def deliver (request : Request) (entry : Entry) (now : Moment) (store : Store) :
    Aim → Lookup × Store
  | .refresh =>
    (.done (some entry), store.withRecent (store.cache.recent.adopt request.key entry).2)
  | .promote =>
    let (entry, store) := store.offer request.key entry now
    (.done (some entry), store)
  | .seed =>
    let (entry, store) := store.offer request.key (entry.touch now) now
    (.landing entry, store.land request.key entry)

/-! ## Steps -/

/-- The path that a resolver is asked for before the next step. -/
def question? : Lookup → Option String
  | .hydrating _ hydration => hydration.question?
  | _ => none

/-- The next step of a lookup. The answer is the one to its question, and of no use if there is none. -/
def step (request : Request) (answer : Answer) (now : Moment) (store : Store) :
    Lookup → Lookup × Store
  | .begun =>
    match store.cache.recent.fetch request.key now with
    | (some entry, recent) => ofRecent request (store.withRecent recent) entry
    | (none, _) => (.missed, store)
  | .missed =>
    let verdict := store.cache.archive.inspect store.disk request.key
    (.judged verdict, store.note verdict.notices)
  | .judged verdict =>
    let outcome := store.cache.archive.settle store.disk request.key verdict
    match outcome.answer with
    | some entry => ofArchive request (store.carryOut outcome) entry now
    | none => ofPaths request (store.carryOut outcome)
  | .joining paths => join request paths store
  | .waiting => (.waiting, store)
  | .leading paths => lead request paths now store
  | .hydrating aim (.finished _ entry) => deliver request entry now store aim
  | .hydrating aim hydration =>
    let (hydration, notices) := hydration.step answer
    (.hydrating aim hydration, store.note notices)
  | .landing entry =>
    (.done (some entry),
      (store.withFlights (store.cache.flights.retire request.key)).count .rebuild)
  | .done answer => (.done answer, store)

/-- A lookup that waits for a flight goes on as soon as the flight has landed. -/
def receive (request : Request) (flights : Flights) : Lookup → Lookup
  | .waiting =>
    match flights.landed? request.key with
    | some entry => .landing entry
    | none => .waiting
  | lookup => lookup

/-- The answer of a lookup that is done. -/
def answer? : Lookup → Option (Option Entry)
  | .done answer => some answer
  | _ => none

end Lookup

end TieredCache
