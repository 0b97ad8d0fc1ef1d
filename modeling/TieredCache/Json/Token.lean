import TieredCache.Json.Numeral
import TieredCache.Json.Quoted

/-!
# Tokens

A JSON text is a list of tokens with blanks between them. A token holds the written form of a number
or a string and not yet its value, so that a text can be read past a value that has none.
-/

namespace TieredCache.Json

/-- A token of a JSON text. -/
inductive Token where
  | listOpen
  | listClose
  | objectOpen
  | objectClose
  | comma
  | colon
  | null
  | truth (value : Bool)
  | number (numeral : Numeral)
  | text (pieces : List Piece)
  deriving DecidableEq, Repr

namespace Token

/-- What follows a fixed word at the front of a text. -/
def word? : List Char → Bytes → Option Bytes
  | [], rest => some rest
  | _ :: _, [] => none
  | letter :: letters, byte :: rest =>
    if Ascii.is byte letter then word? letters rest else none

/-- The token of a single character. -/
def mark? (byte : UInt8) : Option Token :=
  if Ascii.is byte '[' then some .listOpen
  else if Ascii.is byte ']' then some .listClose
  else if Ascii.is byte '{' then some .objectOpen
  else if Ascii.is byte '}' then some .objectClose
  else if Ascii.is byte ',' then some .comma
  else if Ascii.is byte ':' then some .colon
  else none

/-- The token at the front of a text that begins with no blank, and what follows it. -/
def read? : Bytes → Option (Token × Bytes)
  | [] => none
  | byte :: rest =>
    match mark? byte with
    | some token => some (token, rest)
    | none =>
      if Ascii.is byte '"' then
        (Quoted.read? rest).map fun (pieces, rest) => (.text pieces, rest)
      else if Ascii.is byte 'n' then (word? ['u', 'l', 'l'] rest).map fun rest => (.null, rest)
      else if Ascii.is byte 't' then (word? ['r', 'u', 'e'] rest).map fun rest => (.truth true, rest)
      else if Ascii.is byte 'f' then
        (word? ['a', 'l', 's', 'e'] rest).map fun rest => (.truth false, rest)
      else (Numeral.read? (byte :: rest)).map fun (numeral, rest) => (.number numeral, rest)

/-- The tokens of a text of at most `fuel` tokens and blanks. -/
def readFrom : Nat → Bytes → Option (List Token)
  | _, [] => some []
  | 0, _ :: _ => none
  | fuel + 1, byte :: rest =>
    if Ascii.isBlank byte then readFrom fuel rest
    else
      match read? (byte :: rest) with
      | none => none
      | some (token, rest) => (readFrom fuel rest).map (token :: ·)

/-- The tokens of a text. Each takes at least one byte. -/
def readAll (text : Bytes) : Option (List Token) := readFrom text.length text

end Token

end TieredCache.Json
