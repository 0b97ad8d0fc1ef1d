import TieredCache.Bytes

/-!
# Numerals

The written form of a number in a JSON text, as it stands there: nothing is computed yet.
-/

namespace TieredCache.Json

/-- A number as it is written. -/
structure Numeral where
  /-- Whether a minus sign stands in front. -/
  negative : Bool
  /-- The digits before the point: a lone zero, or digits that begin with no zero. -/
  whole : List Char
  /-- The digits after the point, if there is one. -/
  fraction : Option (List Char)
  /-- Whether the exponent is negative, and its digits, if there is one. -/
  exponent : Option (Bool × List Char)
  deriving DecidableEq, Repr

namespace Numeral

/-- The digits at the front of a text, and what follows them. -/
def digits : Bytes → List Char × Bytes
  | [] => ([], [])
  | byte :: rest =>
    if Ascii.isDigit byte then
      let (found, rest) := digits rest
      (Ascii.toChar byte :: found, rest)
    else ([], byte :: rest)

/-- At least one digit. -/
def someDigits? (text : Bytes) : Option (List Char × Bytes) :=
  match digits text with
  | ([], _) => none
  | found => some found

/-- The digits before the point. A zero may not be followed by another digit. -/
def whole? (text : Bytes) : Option (List Char × Bytes) :=
  match digits text with
  | ([], _) => none
  | ('0' :: _ :: _, _) => none
  | found => some found

/-- The part after the point, if there is a point. -/
def fraction? : Bytes → Option (Option (List Char) × Bytes)
  | [] => some (none, [])
  | byte :: rest =>
    if Ascii.is byte '.' then
      (someDigits? rest).map fun (found, rest) => (some found, rest)
    else some (none, byte :: rest)

/-- The sign of an exponent and what follows it. -/
def exponentSign : Bytes → Bool × Bytes
  | [] => (false, [])
  | byte :: rest =>
    if Ascii.is byte '-' then (true, rest)
    else if Ascii.is byte '+' then (false, rest)
    else (false, byte :: rest)

/-- The exponent, if its letter is there. -/
def exponent? : Bytes → Option (Option (Bool × List Char) × Bytes)
  | [] => some (none, [])
  | byte :: rest =>
    if Ascii.is byte 'e' || Ascii.is byte 'E' then
      let (negative, rest) := exponentSign rest
      (someDigits? rest).map fun (found, rest) => (some (negative, found), rest)
    else some (none, byte :: rest)

/-- The sign of a number and what follows it. -/
def sign : Bytes → Bool × Bytes
  | [] => (false, [])
  | byte :: rest => if Ascii.is byte '-' then (true, rest) else (false, byte :: rest)

/-- The number at the front of a text, and what follows it. -/
def read? (text : Bytes) : Option (Numeral × Bytes) := do
  let (negative, text) := sign text
  let (whole, text) ← whole? text
  let (fraction, text) ← fraction? text
  let (exponent, text) ← exponent? text
  return (⟨negative, whole, fraction, exponent⟩, text)

/-- The value of the digits before the point. -/
def wholeValue (numeral : Numeral) : Nat := Nat.ofDigitChars 10 numeral.whole 0

/-- Whether there is neither a point nor an exponent. -/
def isInteger (numeral : Numeral) : Bool := numeral.fraction.isNone && numeral.exponent.isNone

/-- The value of an unsigned integer up to a limit. -/
def natural? (limit : Nat) (numeral : Numeral) : Option Nat :=
  if numeral.isInteger && !numeral.negative && decide (numeral.wholeValue ≤ limit) then
    some numeral.wholeValue
  else none

end Numeral

end TieredCache.Json
