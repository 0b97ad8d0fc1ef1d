import TieredCache.Recent

/-!
# Uses of tier 1

The operations of tier 1 as data, so that any sequence of them can be made. What a use evicts is handed
out before the use is over, the least recently used first.
-/

namespace TieredCache

/-- A use of tier 1. -/
inductive Use where
  /-- Stores an entry, in place of what the key held. -/
  | write (key : String) (entry : Entry)
  /-- Stores an entry unless the key is resident. -/
  | offer (key : String) (entry : Entry) (now : Moment)
  | fetch (key : String) (now : Moment)
  /-- Stores the hydration of a copy back. -/
  | adopt (key : String) (copy : Entry)
  | erase (key : String)
  | contains (key : String)
  | clear

namespace Use

/-- Whether a use takes a stamp. -/
def stamps : Use → Bool
  | .write _ _ => true
  | .offer _ _ _ => true
  | _ => false

end Use

namespace Recent

/-- What a use evicts, and tier 1 after it. -/
def serve (recent : Recent) : Use → Keyed Entry × Recent
  | .write key entry => recent.write key entry
  | .offer key entry now => (recent.offer key entry now).2
  | .fetch key now => ([], (recent.fetch key now).2)
  | .adopt key copy => ([], (recent.adopt key copy).2)
  | .erase key => ([], (recent.erase key).2)
  | .contains _ => ([], recent)
  | .clear => ([], recent.clear.2)

/-- What a use evicts. -/
def evicted (recent : Recent) (use : Use) : Keyed Entry := (recent.serve use).1

/-- Tier 1 after a use. -/
def after (recent : Recent) (use : Use) : Recent := (recent.serve use).2

/-- Tier 1 after a number of uses. -/
def through (recent : Recent) (uses : List Use) : Recent := uses.foldl after recent

/-- The key and the copy of its slot that a use gives out. -/
def copy? (recent : Recent) : Use → Option (String × Entry)
  | .fetch key now => (recent.fetch key now).1.map (Prod.mk key)
  | .offer key entry now => some (key, (recent.offer key entry now).1)
  | _ => none

/-! ## Records of a run -/

/-- What is noted of each use of a run, in the state that it finds. -/
def chronicle {α : Type} (note : Recent → Use → List α) : Recent → List Use → List α
  | _, [] => []
  | recent, use :: later => note recent use ++ chronicle note (recent.after use) later

/-- Whether a use ends what a slot holds: the key is written anew, evicted or taken away. -/
def displaces (recent : Recent) (key : String) (use : Use) : Bool :=
  (recent.evicted use).has key ||
    match use with
    | .write other _ => key == other
    | .erase other => key == other
    | .clear => true
    | _ => false

/-- No use of a run ends what the slot of a key holds. -/
def keeps (key : String) : Recent → List Use → Bool
  | _, [] => true
  | recent, use :: later => !recent.displaces key use && keeps key (recent.after use) later

end Recent

end TieredCache
