import TieredCache.Entry.Basic
import TieredCache.Keyed

/-!
# Flights

Callers that miss the same key in both tiers share one flight: the first of them makes the entry, the
others wait for it. A landed flight is kept until a caller that has its entry retires it.
-/

namespace TieredCache

/-- The making of an entry that callers share. -/
inductive Flight where
  /-- One caller is making the entry. -/
  | aloft
  /-- The entry is there. -/
  | landed (entry : Entry)

/-- Flights by the keys of their entries. -/
abbrev Flights := Keyed Flight

namespace Flights

/-- The entry of a key whose flight has landed. -/
def landed? (flights : Flights) (key : String) : Option Entry :=
  match flights.get? key with
  | some (.landed entry) => some entry
  | _ => none

/-- Retires the flight of a key if it has landed. One that is aloft goes on. -/
def retire (flights : Flights) (key : String) : Flights :=
  if (landed? flights key).isSome then flights.erase key else flights

end Flights

end TieredCache
