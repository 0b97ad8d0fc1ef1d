import TieredCache.Entry.Basic

/-!
# Tier 1: recent entries

A bounded list of entries in the order of their last use, the least recent first. An insertion that finds
no room evicts from the front. Every write marks the entry it stores with a fresh stamp, by which a
copy read from a slot is told from what the slot holds later.
-/

namespace TieredCache

/-- The entries of tier 1. -/
structure Recent where
  /-- How many entries there is room for. -/
  capacity : Nat
  /-- The entries by key, the least recently used first. -/
  slots : Keyed Entry
  /-- The stamp of the next write. -/
  nextStamp : UInt64

namespace Recent

/-- No entries. Stamps begin at one, so that no slot has the stamp of an entry made elsewhere. -/
def empty (capacity : Nat) : Recent := ⟨capacity, [], 1⟩

/-- The keys, the least recently used first. -/
def keys (recent : Recent) : List String := recent.slots.keys

/-- The number of entries. -/
def size (recent : Recent) : Nat := recent.slots.length

/-- Whether a key is resident. -/
def contains (recent : Recent) (key : String) : Bool := recent.slots.has key

/-- The entry of a key, read once more. It becomes the most recent one. -/
def fetch (recent : Recent) (key : String) (now : Moment) : Option Entry × Recent :=
  match recent.slots.get? key with
  | none => (none, recent)
  | some entry =>
    let entry := entry.touch now
    (some entry, { recent with slots := recent.slots.put key entry })

/-- How many entries must leave before one more has room. -/
def excess (recent : Recent) : Nat := recent.size + 1 - recent.capacity

/-- Stores an entry under a key that is not resident. What has to leave comes with the result, the
least recently used first. -/
def insert (recent : Recent) (key : String) (entry : Entry) : Keyed Entry × Recent :=
  (recent.slots.take recent.excess,
    { recent with slots := recent.slots.drop recent.excess ++ [(key, entry)] })

/-- The next stamp on an entry. -/
def mark (recent : Recent) (entry : Entry) : Entry × Recent :=
  ({ entry with stamp := recent.nextStamp }, { recent with nextStamp := recent.nextStamp + 1 })

/-- Stores an entry under a key, in place of what the key held. Only a new key evicts. -/
def write (recent : Recent) (key : String) (entry : Entry) : Keyed Entry × Recent :=
  let (entry, recent) := recent.mark entry
  if recent.contains key then ([], { recent with slots := recent.slots.put key entry })
  else recent.insert key entry

/-- Stores an entry under a key unless the key is resident. The result holds the entry that the key
has afterwards, which is read once more if it was there before. -/
def offer (recent : Recent) (key : String) (entry : Entry) (now : Moment) :
    Entry × Keyed Entry × Recent :=
  let (entry, recent) := recent.mark entry
  match recent.fetch key now with
  | (some resident, recent) => (resident, [], recent)
  | (none, recent) => (entry, recent.insert key entry)

/-- Takes over the hydration of a copy, if the slot still holds what the copy was read from. -/
def adopt (recent : Recent) (key : String) (copy : Entry) : Bool × Recent :=
  match recent.slots.get? key with
  | none => (false, recent)
  | some entry =>
    if entry.stamp = copy.stamp then
      (true, { recent with slots := recent.slots.set key (entry.adopt copy) })
    else (false, recent)

/-- Takes a key away. The entry that it held comes with the result. -/
def erase (recent : Recent) (key : String) : Option Entry × Recent :=
  (recent.slots.get? key, { recent with slots := recent.slots.erase key })

/-- Takes all keys away. Their number comes with the result. -/
def clear (recent : Recent) : Nat × Recent := (recent.size, { recent with slots := [] })

end Recent

end TieredCache
