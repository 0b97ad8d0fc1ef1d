import TieredCache.Crowd
import TieredCache.Uses

/-!
# Traffic

Callers come to one store at any time. Their lookups take their steps in any order, and between two steps
entries are put, keys are removed and tiers are cleared. Of all this, tier 1 sees a sequence of uses.
-/

namespace TieredCache

/-- What happens next on a store. -/
inductive Move where
  /-- A caller begins to look a key up. -/
  | arrive (request : Request)
  /-- A caller that looks a key up takes its next step. -/
  | turn (turn : Turn)
  /-- An entry is put, one that was just made or any other. -/
  | putEntry (entry : Entry)
  | remove (key : String)
  | clear (recentOnly : Bool)
  | rebuildIndex
  | resetTally

namespace Crowd

/-- A crowd after a move. A request or a call without a key is refused and changes nothing. -/
def move (crowd : Crowd) : Move → Crowd
  | .arrive request =>
    match Fault.checkKey request.key with
    | .ok _ => { crowd with callers := crowd.callers ++ [.new request] }
    | .error _ => crowd
  | .turn turn => crowd.turn turn
  | .putEntry entry =>
    match crowd.store.putEntry entry with
    | .ok (_, store) => { crowd with store }
    | .error _ => crowd
  | .remove key =>
    match crowd.store.remove key with
    | .ok (_, store) => { crowd with store }
    | .error _ => crowd
  | .clear recentOnly => { crowd with store := (crowd.store.clear recentOnly).2 }
  | .rebuildIndex => { crowd with store := crowd.store.rebuildIndex.2 }
  | .resetTally => { crowd with store := crowd.store.resetTally }

/-- A crowd after a number of moves. -/
def through (crowd : Crowd) (moves : List Move) : Crowd := moves.foldl move crowd

end Crowd

/-! ## Uses of tier 1 -/

/-- What the next step of a lookup asks of tier 1. -/
def Lookup.use? (request : Request) (now : Moment) : Lookup → Option Use
  | .begun => some (.fetch request.key now)
  | .leading _ => some (.fetch request.key now)
  | .hydrating .refresh (.finished _ entry) => some (.adopt request.key entry)
  | .hydrating .promote (.finished _ entry) => some (.offer request.key entry now)
  | .hydrating .seed (.finished _ entry) => some (.offer request.key (entry.touch now) now)
  | _ => none

namespace Crowd

/-- What a move asks of tier 1. -/
def use? (crowd : Crowd) : Move → Option Use
  | .turn turn =>
    crowd.callers[turn.index]?.bind fun caller => caller.lookup.use? caller.request turn.now
  | .putEntry entry =>
    match Fault.checkKey entry.key with
    | .ok _ =>
      let entry := Store.described crowd.store.cache entry
      some (.write entry.key entry)
    | .error _ => none
  | .remove key =>
    match Fault.checkKey key with
    | .ok _ => some (.erase key)
    | .error _ => none
  | .clear _ => some .clear
  | _ => none

/-- What a number of moves ask of tier 1. -/
def uses : Crowd → List Move → List Use
  | _, [] => []
  | crowd, move :: later => (crowd.use? move).toList ++ uses (crowd.move move) later

end Crowd

end TieredCache
