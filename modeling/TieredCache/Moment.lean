import TieredCache.Json.Fields

/-!
# Moments

A point in time at or after the epoch, to the nanosecond, and its form in a record.
-/

namespace TieredCache

open Json

/-- Seconds and nanoseconds since the epoch. -/
structure Moment where
  seconds : Nat
  nanos : Nat
  /-- The seconds fit a signed word of 64 bits. -/
  seconds_lt : seconds < 2 ^ 63 := by decide
  /-- The nanoseconds are less than one second. -/
  nanos_lt : nanos < 10 ^ 9 := by decide
  deriving DecidableEq, Repr

namespace Moment

/-- The epoch itself. -/
def epoch : Moment := ⟨0, 0, by decide, by decide⟩

instance : Inhabited Moment := ⟨epoch⟩

/-- The moment a number of nanoseconds after a number of seconds. Whole seconds among the nanoseconds
are carried over. -/
def ofParts? (seconds nanos : Nat) : Option Moment :=
  if fits : seconds + nanos / 10 ^ 9 < 2 ^ 63 then
    some ⟨seconds + nanos / 10 ^ 9, nanos % 10 ^ 9, fits, Nat.mod_lt _ (by decide)⟩
  else none

/-- A moment is made up of its own parts. -/
@[simp] theorem ofParts?_parts (moment : Moment) :
    ofParts? moment.seconds moment.nanos = some moment := by
  have seconds_lt := moment.seconds_lt
  have whole : moment.nanos / 10 ^ 9 = 0 := Nat.div_eq_of_lt moment.nanos_lt
  have rest : moment.nanos % 10 ^ 9 = moment.nanos := Nat.mod_eq_of_lt moment.nanos_lt
  simp only [ofParts?, whole, rest, Nat.add_zero, seconds_lt, dite_true]

/-- The fields of a moment in a record. -/
def fieldNames : List String := ["secs_since_epoch", "nanos_since_epoch"]

/-- The form of a moment in a record. -/
def toValue (moment : Moment) : Value :=
  .object (fieldNames.zip [.number (.whole moment.seconds), .number (.whole moment.nanos)])

/-- The moment of an outline. No other field than the two may stand there. -/
def ofOutline? (outline : Outline) : Option Moment :=
  if Fields.namesOnly fieldNames outline then
    match Fields.ofOutline? fieldNames outline with
    | some [some seconds, some nanos] => do
      let seconds ← seconds.natural? (2 ^ 64 - 1)
      let nanos ← nanos.natural? (2 ^ 32 - 1)
      ofParts? seconds nanos
    | _ => none
  else none

end Moment

end TieredCache
