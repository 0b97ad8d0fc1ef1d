import TieredCache.Bytes
import TieredCache.Power

/-!
# Doubles in decimal

A double is held by its 64 bits. Its decimal text is chosen in exact arithmetic: the fewest digits
that read back as the same double, and of those the nearest to it.
-/

namespace TieredCache

/-- A double, by its bits. -/
structure Double where
  /-- Sign, exponent and fraction, as they are stored. -/
  bits : UInt64
  deriving DecidableEq, Repr

namespace Double

/-- The double a computation gives. -/
def ofFloat (value : Float) : Double := ⟨value.toBits⟩

/-- The sign bit. -/
def isNegative (double : Double) : Bool := double.bits >>> 63 == 1

/-- The eleven bits of the exponent. -/
def exponentField (double : Double) : Nat := (double.bits.toNat / 2 ^ 52) % 2 ^ 11

/-- The fifty-two bits of the fraction. -/
def fractionField (double : Double) : Nat := double.bits.toNat % 2 ^ 52

/-- The magnitude of a finite double is `significand * 2 ^ binaryExponent`. -/
def significand (double : Double) : Nat :=
  if double.exponentField = 0 then double.fractionField else double.fractionField + 2 ^ 52

/-- The power of two that goes with `significand`. -/
def binaryExponent (double : Double) : Int :=
  if double.exponentField = 0 then -1074 else (double.exponentField : Int) - 1075

/-- The gap to the next smaller double is half the gap to the next larger one. -/
def isLowEdge (double : Double) : Bool :=
  double.fractionField == 0 && decide (1 < double.exponentField)

/-! ## The interval of numbers that round to a double -/

/-- Three fractions over one denominator: a value, and the ends of what rounds to it. -/
structure Interval where
  /-- The lower end. -/
  low : Nat
  /-- The value. -/
  middle : Nat
  /-- The upper end. -/
  high : Nat
  /-- The common denominator. -/
  denominator : Nat
  /-- Whether the ends round to the value too. -/
  closed : Bool

/-- The magnitude of a finite double, in quarters of its last place. -/
def interval (double : Double) : Interval :=
  let quarters := 4 * double.significand
  let exponent := double.binaryExponent - 2
  let scale := Nat.pow 2 exponent.toNat
  { low := (quarters - if double.isLowEdge then 1 else 2) * scale
    middle := quarters * scale
    high := (quarters + 2) * scale
    denominator := Nat.pow 2 (-exponent).toNat
    closed := double.significand % 2 == 0 }

/-- The interval with its numbers measured in units of `10 ^ exponent`. -/
def Interval.inUnits (range : Interval) (exponent : Int) : Interval :=
  let scale := Nat.pow 10 (-exponent).toNat
  { range with
    low := range.low * scale
    middle := range.middle * scale
    high := range.high * scale
    denominator := range.denominator * Nat.pow 10 exponent.toNat }

/-- Whether a whole number lies in the interval. -/
def Interval.holds (range : Interval) (whole : Nat) : Bool :=
  let number := whole * range.denominator
  if range.closed then decide (range.low ≤ number ∧ number ≤ range.high)
  else decide (range.low < number ∧ number < range.high)

/-- The whole number in the interval that is nearest to its value, an even one if two are. Of the
whole numbers in an interval that holds any, one is next to the value. -/
def Interval.nearest? (range : Interval) : Option Nat :=
  let below := range.middle / range.denominator
  let above := below + 1
  match range.holds below, range.holds above with
  | false, false => none
  | true, false => some below
  | false, true => some above
  | true, true =>
    let toBelow := range.middle - below * range.denominator
    let toAbove := above * range.denominator - range.middle
    if toBelow < toAbove ∨ toBelow = toAbove ∧ below % 2 = 0 then some below else some above

/-! ## Shortest digits -/

/-- How often a fraction below one is multiplied by ten until it is one or more, up to `fuel`. -/
def leadingZeros : Nat → Nat → Nat → Nat
  | 0, _, _ => 0
  | fuel + 1, numerator, denominator =>
    if numerator < denominator then leadingZeros fuel (10 * numerator) denominator + 1 else 0

/-- The exponent of the greatest power of ten not above a positive fraction. No double is below
`10 ^ (-400)`. -/
def decimalExponent (numerator denominator : Nat) : Int :=
  if denominator ≤ numerator then
    ((Nat.toDigits 10 (numerator / denominator)).length : Int) - 1
  else -(leadingZeros 400 numerator denominator : Int)

/-- A decimal number `digits * 10 ^ exponent`. -/
structure Decimal where
  digits : Nat
  exponent : Int
  deriving DecidableEq, Repr

/-- The same number with no zero at its end. -/
def Decimal.strip : Nat → Decimal → Decimal
  | 0, number => number
  | fuel + 1, number =>
    if number.digits ≠ 0 ∧ number.digits % 10 = 0 then
      Decimal.strip fuel ⟨number.digits / 10, number.exponent + 1⟩
    else number

/-- The first decimal in an interval, on grids that get finer by a factor of ten. -/
def firstOnGrid (range : Interval) : Nat → Int → Decimal
  | 0, exponent => ⟨range.middle / range.denominator, exponent⟩
  | fuel + 1, exponent =>
    match (range.inUnits exponent).nearest? with
    | some digits => ⟨digits, exponent⟩
    | none => firstOnGrid range fuel (exponent - 1)

/-- The decimal of fewest digits that rounds to a finite nonzero double, up to its sign. Seventeen
digits always suffice. -/
def shortest (double : Double) : Decimal :=
  let range := double.interval
  Decimal.strip 18 (firstOnGrid range 18 (decimalExponent range.middle range.denominator))

/-! ## Text -/

/-- The text of a double in JSON: positional from `10 ^ (-5)` to below `10 ^ 16` and with a digit
after the point, otherwise with a signed exponent. -/
def text (double : Double) : List Char :=
  let magnitude :=
    if double.significand = 0 then "0.0".toList
    else
      let ⟨number, exponent⟩ := double.shortest
      let digits := Nat.toDigits 10 number
      let point : Int := digits.length + exponent
      if 0 < point ∧ point ≤ 16 then
        let whole := digits.take point.toNat
        let fraction := digits.drop point.toNat
        whole ++ List.replicate exponent.toNat '0' ++
          '.' :: (if fraction.isEmpty then ['0'] else fraction)
      else if -5 < point ∧ point ≤ 0 then
        "0.".toList ++ List.replicate (-point).toNat '0' ++ digits
      else
        let tail := digits.tail
        digits.take 1 ++ (if tail.isEmpty then [] else '.' :: tail) ++
          'e' :: (if 1 ≤ point then '+' else '-') :: Nat.toDigits 10 (point - 1).natAbs
  if double.isNegative then '-' :: magnitude else magnitude

/-- A fraction rounded to a whole number, a half to the even neighbour. -/
def roundHalfEven (numerator denominator : Nat) : Nat :=
  let whole := numerator / denominator
  let rest := 2 * (numerator % denominator)
  if denominator < rest ∨ rest = denominator ∧ whole % 2 = 1 then whole + 1 else whole

/-- The text of the magnitude of a finite double with one digit after the point. -/
def oneDecimal (double : Double) : List Char :=
  let range := double.interval
  let tenths := roundHalfEven (10 * range.middle) range.denominator
  Nat.toDigits 10 (tenths / 10) ++ '.' :: Nat.toDigits 10 (tenths % 10)

end Double

end TieredCache
