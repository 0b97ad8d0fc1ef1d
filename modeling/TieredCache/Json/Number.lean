import TieredCache.Decimal.Double
import TieredCache.Json.Numeral

/-!
# Numbers

An integer that fits 64 bits, with or without a sign, stays an integer; every other number is a
double. The double is not the nearest one to the decimal: the digits that fit 64 bits are rounded to a
double, which is then multiplied or divided by a power of ten.
-/

namespace TieredCache.Json

/-- A number. -/
inductive Number where
  /-- An integer from `-2 ^ 63` to below `2 ^ 64`. -/
  | whole (value : Int)
  /-- Any other number, and a negative zero. -/
  | real (value : Double)
  deriving DecidableEq, Repr

namespace Number

/-- An integer that a signed or an unsigned word of 64 bits holds. -/
def fits (value : Int) : Bool := decide (-2 ^ 63 ≤ value ∧ value < 2 ^ 64)

/-! ## Digits that fit a word -/

/-- The digits taken up so far, as `value * 10 ^ shift`. -/
structure Digits where
  value : Nat
  shift : Int
  /-- A digit has been dropped since the last start. -/
  full : Bool

/-- Whether one more digit would leave the range of an unsigned word of 64 bits. -/
def Digits.overflows (digits : Digits) (digit : Char) : Bool :=
  digits.full || decide (2 ^ 64 ≤ 10 * digits.value + (digit.toNat - 48))

/-- The same digits with one more. -/
def Digits.append (digits : Digits) (digit : Char) : Digits :=
  { digits with value := 10 * digits.value + (digit.toNat - 48) }

/-- Takes up a digit before the point. One that is dropped raises the power of ten. -/
def Digits.addWhole (digits : Digits) (digit : Char) : Digits :=
  if digits.overflows digit then { digits with shift := digits.shift + 1, full := true }
  else digits.append digit

/-- Takes up a digit after the point. One that is dropped changes nothing. -/
def Digits.addFraction (digits : Digits) (digit : Char) : Digits :=
  if digits.overflows digit then { digits with full := true }
  else { digits.append digit with shift := digits.shift - 1 }

/-- The digits of a numeral. After the point, digits are taken up again as long as they fit. -/
def Digits.ofNumeral (numeral : Numeral) : Digits :=
  let whole := numeral.whole.foldl Digits.addWhole ⟨0, 0, false⟩
  (numeral.fraction.getD []).foldl Digits.addFraction { whole with full := false }

/-! ## Powers of ten -/

/-- The greatest power of ten that is a finite double. -/
def maxPower : Nat := 308

/-- The double nearest to a power of ten. -/
def powerOfTen (power : Nat) : Float := Float.ofScientific 1 false power

/-- Divides by a power of ten, in steps of at most `maxPower`. -/
def divide : Nat → Float → Nat → Float
  | 0, value, power => value / powerOfTen power
  | steps + 1, value, power =>
    if power ≤ maxPower then value / powerOfTen power
    else if value == 0 then value
    else divide steps (value / powerOfTen maxPower) (power - maxPower)

/-- Multiplies by a power of ten. The product must be finite. -/
def multiply? (value : Float) (power : Nat) : Option Float :=
  if power ≤ maxPower then
    let product := value * powerOfTen power
    if product.isInf then none else some product
  else if value == 0 then some value
  else none

/-- The exponent that a numeral states. -/
def statedExponent (numeral : Numeral) : Int :=
  match numeral.exponent with
  | none => 0
  | some (true, digits) => -(Nat.ofDigitChars 10 digits 0 : Int)
  | some (false, digits) => Nat.ofDigitChars 10 digits 0

/-- The double of a numeral, unless it is out of range. -/
def double? (numeral : Numeral) : Option Double :=
  let digits := Digits.ofNumeral numeral
  let exponent := digits.shift + statedExponent numeral
  let value := (UInt64.ofNat digits.value).toFloat
  let scaled :=
    if 0 ≤ exponent then multiply? value exponent.toNat
    else some (divide (exponent.natAbs / maxPower) value exponent.natAbs)
  scaled.map fun magnitude => Double.ofFloat (if numeral.negative then -magnitude else magnitude)

/-! ## Reading and writing -/

/-- The integer that a numeral states, unless it has to be a double. -/
def integer? (numeral : Numeral) : Option Int :=
  if !numeral.isInteger then none
  else if !numeral.negative then
    if fits numeral.wholeValue then some numeral.wholeValue else none
  else if numeral.wholeValue ≠ 0 && fits (-numeral.wholeValue) then some (-numeral.wholeValue)
  else none

/-- The number of a numeral, unless it is out of range. -/
def ofNumeral? (numeral : Numeral) : Option Number :=
  match integer? numeral with
  | some value => some (.whole value)
  | none => (double? numeral).map .real

/-- The digits of an integer. -/
def integerText : Int → List Char
  | .ofNat value => Nat.toDigits 10 value
  | .negSucc value => '-' :: Nat.toDigits 10 (value + 1)

/-- The written form of a number. -/
def write : Number → Bytes
  | .whole value => Ascii.bytes (integerText value)
  | .real value => Ascii.bytes value.text

end Number

end TieredCache.Json
