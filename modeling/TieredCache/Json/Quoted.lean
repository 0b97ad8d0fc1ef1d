import TieredCache.Text.Utf8

/-!
# Quoted strings

A string of a JSON text is read in two steps. The first finds its end and checks its escapes, the
second decodes it. Values that nobody asks for only take the first.
-/

namespace TieredCache.Json

/-- One element of a quoted string. -/
inductive Piece where
  /-- A byte that stands for itself, or the byte of a short escape. -/
  | byte (value : UInt8)
  /-- The code unit of an escape with four hexadecimal digits. -/
  | unit (code : Nat)
  deriving DecidableEq, Repr

namespace Quoted

/-! ## Finding the end -/

/-- The byte that a short escape stands for. -/
def unescape? (letter : UInt8) : Option UInt8 :=
  if Ascii.is letter '"' || Ascii.is letter '\\' || Ascii.is letter '/' then some letter
  else if Ascii.is letter 'b' then some 8
  else if Ascii.is letter 'f' then some 12
  else if Ascii.is letter 'n' then some 10
  else if Ascii.is letter 'r' then some 13
  else if Ascii.is letter 't' then some 9
  else none

/-- The code unit of four hexadecimal digits. -/
def unit? (first second third fourth : UInt8) : Option Nat := do
  let first ← Ascii.hexValue? first
  let second ← Ascii.hexValue? second
  let third ← Ascii.hexValue? third
  let fourth ← Ascii.hexValue? fourth
  return 4096 * first + 256 * second + 16 * third + fourth

/-- The pieces of a string up to its closing quote, and what follows it. A control character must
be escaped. -/
def read? : Bytes → Option (List Piece × Bytes)
  | [] => none
  | byte :: rest =>
    if Ascii.is byte '"' then some ([], rest)
    else if Ascii.is byte '\\' then
      match rest with
      | [] => none
      | letter :: rest =>
        if Ascii.is letter 'u' then
          match rest with
          | first :: second :: third :: fourth :: rest =>
            match unit? first second third fourth, read? rest with
            | some code, some (pieces, rest) => some (.unit code :: pieces, rest)
            | _, _ => none
          | _ => none
        else
          match unescape? letter, read? rest with
          | some value, some (pieces, rest) => some (.byte value :: pieces, rest)
          | _, _ => none
    else if byte < 0x20 then none
    else
      match read? rest with
      | some (pieces, rest) => some (.byte byte :: pieces, rest)
      | none => none

/-! ## Decoding -/

/-- A code unit that opens a surrogate pair. -/
def isHigh (code : Nat) : Bool := 0xD800 ≤ code && code ≤ 0xDBFF

/-- A code unit that closes a surrogate pair. -/
def isLow (code : Nat) : Bool := 0xDC00 ≤ code && code ≤ 0xDFFF

/-- The character of a surrogate pair. -/
def pair (high low : Nat) : Char := Char.ofNat (0x10000 + 0x400 * (high - 0xD800) + (low - 0xDC00))

/-- The bytes that the pieces of a string stand for. A surrogate must be one of a pair. -/
def bytes? : List Piece → Option Bytes
  | [] => some []
  | .byte value :: rest => (bytes? rest).map (value :: ·)
  | .unit high :: .unit low :: rest =>
    if isHigh high then
      if isLow low then (bytes? rest).map (String.utf8EncodeChar (pair high low) ++ ·) else none
    else if isLow high then none
    else (bytes? (.unit low :: rest)).map (String.utf8EncodeChar (Char.ofNat high) ++ ·)
  | .unit code :: rest =>
    if isHigh code || isLow code then none
    else (bytes? rest).map (String.utf8EncodeChar (Char.ofNat code) ++ ·)

/-- The string that pieces stand for, if it is well formed. -/
def text? (pieces : List Piece) : Option String := (bytes? pieces).bind Utf8.decode?

/-! ## Writing -/

/-- The written form of one byte of a string. -/
def escape (byte : UInt8) : Bytes :=
  if Ascii.is byte '"' then Ascii.bytes ['\\', '"']
  else if Ascii.is byte '\\' then Ascii.bytes ['\\', '\\']
  else if byte = 8 then Ascii.bytes ['\\', 'b']
  else if byte = 12 then Ascii.bytes ['\\', 'f']
  else if byte = 10 then Ascii.bytes ['\\', 'n']
  else if byte = 13 then Ascii.bytes ['\\', 'r']
  else if byte = 9 then Ascii.bytes ['\\', 't']
  else if byte < 0x20 then Ascii.bytes (['\\', 'u', '0', '0'] ++ Ascii.hexPair byte)
  else [byte]

/-- The written form of a string, with its quotes. -/
def write (text : String) : Bytes :=
  '"'.toUInt8 :: (Utf8.encode text).flatMap escape ++ ['"'.toUInt8]

end Quoted

end TieredCache.Json
