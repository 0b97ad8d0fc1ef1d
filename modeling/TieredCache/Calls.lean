import TieredCache.Lookup.Run

/-!
# Calls

The calls that change a cache, as data, so that a sequence of them can be made one after another. Each
comes with the moment at which it is made.
-/

namespace TieredCache

/-- A call of a cache. -/
inductive Call where
  | put (key : String) (paths : List String) (params : Params)
  | putEntry (entry : Entry)
  | get (request : Request)
  /-- Hydrates an entry that the caller holds. -/
  | hydrate (entry : Entry)
  | remove (key : String)
  | clear (recentOnly : Bool)
  | rebuildIndex
  | resetTally

/-- What a call gives back. -/
inductive Reply where
  /-- The entry that was written. -/
  | written (entry : Entry)
  | found (entry : Option Entry)
  /-- The entry of the caller, and whether it holds an artifact. -/
  | hydrated (found : Bool) (entry : Entry)
  /-- Whether either tier held the key. -/
  | removed (held : Bool)
  | cleared (cleared : Cleared)
  /-- How many keys the index has. -/
  | rebuilt (keys : Nat)
  | reset
  | refused (fault : Fault)

namespace Store

variable {σ : Type}

/-- Opens a store on a disk. -/
def opened (disk : Disk) (settings : Settings) (resolving : Bool) (describer : Option Describer) :
    Except Fault Store :=
  match establish disk settings resolving describer with
  | (disk, notices, .ok cache) => .ok ⟨disk, cache, notices⟩
  | (_, _, .error fault) => .error fault

/-- The reply to a writing, and the store that it leaves. -/
def answerWriting (store : Store) : Except Fault (Entry × Store) → Reply × Store
  | .ok (entry, store) => (.written entry, store)
  | .error fault => (.refused fault, store)

/-- Makes a call, with a resolver that answers at once and makes no calls itself. -/
def call (resolve : Resolver σ) (store : Store) (state : σ) (now : Moment) :
    Call → Reply × Store × σ
  | .put key paths params =>
    let (reply, store) := store.answerWriting (store.put key paths params now)
    (reply, store, state)
  | .putEntry entry =>
    let (reply, store) := store.answerWriting (store.putEntry entry)
    (reply, store, state)
  | .get request =>
    match store.get resolve state request now with
    | .ok (entry, store, state) => (.found entry, store, state)
    | .error fault => (.refused fault, store, state)
  | .hydrate entry =>
    let (found, entry, store, state) := store.hydrate resolve state entry
    (.hydrated found entry, store, state)
  | .remove key =>
    match store.remove key with
    | .ok (held, store) => (.removed held, store, state)
    | .error fault => (.refused fault, store, state)
  | .clear recentOnly =>
    let (cleared, store) := store.clear recentOnly
    (.cleared cleared, store, state)
  | .rebuildIndex =>
    let (keys, store) := store.rebuildIndex
    (.rebuilt keys, store, state)
  | .resetTally => (.reset, store.resetTally, state)

/-- Makes calls one after another. -/
def calls (resolve : Resolver σ) : Store → σ → List (Call × Moment) → List Reply × Store × σ
  | store, state, [] => ([], store, state)
  | store, state, (made, now) :: later =>
    let (reply, store, state) := store.call resolve state now made
    let (replies, store, state) := calls resolve store state later
    (reply :: replies, store, state)

end Store

end TieredCache
