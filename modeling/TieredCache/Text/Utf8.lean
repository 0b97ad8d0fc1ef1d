import TieredCache.Bytes

/-!
# UTF-8

Strings are written as UTF-8. Reading is strict where a string is decoded, and lossy where a file of
unknown content is shown.
-/

namespace TieredCache.Utf8

/-- The UTF-8 form of a string. -/
def encode (text : String) : Bytes := text.toByteArray.data.toList

/-- The string whose UTF-8 form is given, if it is well formed. -/
def decode? (bytes : Bytes) : Option String := String.fromUTF8? ⟨bytes.toArray⟩

/-- Decoding undoes encoding. -/
@[simp] theorem decode?_encode (text : String) : decode? (encode text) = some text := by
  have well_formed := text.isValidUTF8
  simp [decode?, encode, String.fromUTF8?, well_formed, String.fromUTF8]

/-! ## Lossy reading -/

/-- The sign that stands for bytes that are no character. -/
def replacement : Char := Char.ofNat 0xFFFD

/-- A byte that may follow the first byte of a longer character. -/
def isTail (byte : UInt8) : Bool := 0x80 ≤ byte && byte ≤ 0xBF

/-- How many bytes follow a first byte, and the range of the first of them. -/
def follow? (first : UInt8) : Option (Nat × UInt8 × UInt8) :=
  if 0xC2 ≤ first && first ≤ 0xDF then some (1, 0x80, 0xBF)
  else if first == 0xE0 then some (2, 0xA0, 0xBF)
  else if first == 0xED then some (2, 0x80, 0x9F)
  else if 0xE1 ≤ first && first ≤ 0xEF then some (2, 0x80, 0xBF)
  else if first == 0xF0 then some (3, 0x90, 0xBF)
  else if 0xF1 ≤ first && first ≤ 0xF3 then some (3, 0x80, 0xBF)
  else if first == 0xF4 then some (3, 0x80, 0x8F)
  else none

/-- The bytes at the front of a text that belong to the character a first byte opens. -/
def tails (count : Nat) (low high : UInt8) : Bytes → Bytes
  | [] => []
  | byte :: rest =>
    if count = 0 then []
    else if low ≤ byte && byte ≤ high then byte :: (rest.take (count - 1)).takeWhile isTail
    else []

/-- The character at the front of a nonempty text and its width. Bytes that open a character without
completing it count as one replacement sign, as does a byte that opens none. -/
def leading (first : UInt8) (rest : Bytes) : Char × Nat :=
  if first < 0x80 then (Ascii.toChar first, 1)
  else
    match follow? first with
    | none => (replacement, 1)
    | some (count, low, high) =>
      let found := tails count low high rest
      if found.length = count then
        match decode? (first :: found) with
        | some text => (text.toList.headD replacement, count + 1)
        | none => (replacement, 1)
      else (replacement, found.length + 1)

/-- Reads at most `fuel` characters. -/
def lossyFrom : Nat → Bytes → List Char
  | 0, _ => []
  | _ + 1, [] => []
  | fuel + 1, first :: rest =>
    let (character, width) := leading first rest
    character :: lossyFrom fuel (rest.drop (width - 1))

/-- The text of any bytes: what is no character shows as a replacement sign. -/
def lossy (bytes : Bytes) : String := String.ofList (lossyFrom bytes.length bytes)

end TieredCache.Utf8
