/-!
# Byte strings

The contents of a file are a list of bytes. JSON is ASCII outside its strings, so bytes are classed by
the ASCII character they stand for.
-/

namespace TieredCache

/-- The contents of a file, or of one string in it. -/
abbrev Bytes := List UInt8

namespace Ascii

/-- Whether a byte is the given ASCII character. -/
def is (byte : UInt8) (character : Char) : Bool := byte == character.toUInt8

/-- A decimal digit. -/
def isDigit (byte : UInt8) : Bool := '0'.toUInt8 ≤ byte && byte ≤ '9'.toUInt8

/-- The four characters that may stand between the tokens of a JSON text. -/
def isBlank (byte : UInt8) : Bool :=
  is byte ' ' || is byte '\t' || is byte '\n' || is byte '\r'

/-- The character of an ASCII byte. -/
def toChar (byte : UInt8) : Char := Char.ofNat byte.toNat

/-- The value of a hexadecimal digit of either case. -/
def hexValue? (byte : UInt8) : Option Nat :=
  if isDigit byte then some (byte.toNat - 48)
  else if 'a'.toUInt8 ≤ byte && byte ≤ 'f'.toUInt8 then some (byte.toNat - 87)
  else if 'A'.toUInt8 ≤ byte && byte ≤ 'F'.toUInt8 then some (byte.toNat - 55)
  else none

/-- The lower-case hexadecimal digit of a value below sixteen. -/
def hexDigit (value : Nat) : Char := Nat.digitChar value

/-- The two lower-case hexadecimal digits of a byte. -/
def hexPair (byte : UInt8) : List Char :=
  [hexDigit (byte.toNat / 16), hexDigit (byte.toNat % 16)]

/-- The bytes of ASCII characters. -/
def bytes (characters : List Char) : Bytes := characters.map Char.toUInt8

end Ascii

end TieredCache
