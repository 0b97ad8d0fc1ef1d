import TieredCache.Json.Value

/-!
# Tallies

How many lookups ended in which way, the rate of hits, and the forms in which both are reported.
-/

namespace TieredCache

open Json

/-- How many lookups ended in which way. -/
structure Tally where
  /-- The key was in tier 1. -/
  recentHits : UInt64 := 0
  /-- The key was in tier 2. -/
  archiveHits : UInt64 := 0
  /-- The entry was made anew from its paths. -/
  rebuilds : UInt64 := 0
  /-- There was no entry. -/
  misses : UInt64 := 0
  deriving DecidableEq, Repr

/-- How a lookup ends. -/
inductive Ending where
  | recentHit
  | archiveHit
  | rebuild
  | miss
  deriving DecidableEq, Repr

namespace Tally

/-- Counts one more lookup. -/
def count (tally : Tally) : Ending → Tally
  | .recentHit => { tally with recentHits := tally.recentHits + 1 }
  | .archiveHit => { tally with archiveHits := tally.archiveHits + 1 }
  | .rebuild => { tally with rebuilds := tally.rebuilds + 1 }
  | .miss => { tally with misses := tally.misses + 1 }

/-- The lookups that found their key in a tier. -/
def hits (tally : Tally) : UInt64 := tally.recentHits + tally.archiveHits

/-- All lookups. -/
def total (tally : Tally) : UInt64 := tally.hits + tally.rebuilds + tally.misses

/-- The part of the lookups that found their key in a tier, and zero before any. -/
def hitRate (tally : Tally) : Float :=
  if 0 < tally.total then tally.hits.toFloat / tally.total.toFloat else 0

end Tally

/-- A tally with the sizes of both tiers. -/
structure Statistics where
  tally : Tally
  recentSize : Nat
  archiveSize : Nat
  deriving DecidableEq, Repr

namespace Statistics

/-- The form of statistics in JSON. -/
def toValue (statistics : Statistics) : Value :=
  let count (value : Nat) : Value := .number (.whole value)
  .object [
    ("tier1Hits", count statistics.tally.recentHits.toNat),
    ("tier2Hits", count statistics.tally.archiveHits.toNat),
    ("tier3Reconstructions", count statistics.tally.rebuilds.toNat),
    ("misses", count statistics.tally.misses.toNat),
    ("tier1Size", count statistics.recentSize),
    ("tier2Size", count statistics.archiveSize),
    ("hitRate", .number (.real (Double.ofFloat statistics.tally.hitRate)))]

/-- The rate of hits as a percentage with one digit after the point. -/
def percentage (statistics : Statistics) : String :=
  String.ofList ((Double.ofFloat (statistics.tally.hitRate * 100)).oneDecimal ++ ['%'])

/-- A line of metrics: its message and its fields. -/
def metrics (statistics : Statistics) : String × List (String × Value) :=
  let count (value : Nat) : Value := .number (.whole value)
  ("Cache metrics", [
    ("tier1_hits", count statistics.tally.recentHits.toNat),
    ("tier2_hits", count statistics.tally.archiveHits.toNat),
    ("tier3_reconstructions", count statistics.tally.rebuilds.toNat),
    ("misses", count statistics.tally.misses.toNat),
    ("hit_rate", .text statistics.percentage),
    ("tier1_entries", count statistics.recentSize),
    ("tier2_entries", count statistics.archiveSize)])

end Statistics

end TieredCache
