import TieredCache.Json.Number
import TieredCache.Json.Outline

/-!
# Values

A value is an outline whose numbers and strings have been decoded. Objects hold each key once, in
the order of the keys.
-/

namespace TieredCache.Json

/-- A JSON value. -/
inductive Value where
  | null
  | truth (value : Bool)
  | number (number : Number)
  | text (text : String)
  | list (items : List Value)
  | object (members : List (String × Value))
  deriving Repr

namespace Value

/-! ## Members in the order of their keys -/

/-- Adds a member to an ordered list of members, unless its key is there. -/
def insertNew (key : String) (value : Value) : List (String × Value) → List (String × Value)
  | [] => [(key, value)]
  | (other, held) :: members =>
    if key < other then (key, value) :: (other, held) :: members
    else if key = other then (other, held) :: members
    else (other, held) :: insertNew key value members

/-! ## Decoding -/

mutual

/-- The value of an outline, if its numbers and strings have values. -/
def ofOutline? : Outline → Option Value
  | .null => some .null
  | .truth value => some (.truth value)
  | .number numeral => (Number.ofNumeral? numeral).map .number
  | .text pieces => (Quoted.text? pieces).map .text
  | .list items => (ofItems? items).map .list
  | .object members => (ofMembers? members).map .object

/-- The values of items. -/
def ofItems? : List Outline → Option (List Value)
  | [] => some []
  | item :: items =>
    match ofOutline? item, ofItems? items with
    | some value, some values => some (value :: values)
    | _, _ => none

/-- The members of an object. Of two with one key, the later counts. -/
def ofMembers? : List (List Piece × Outline) → Option (List (String × Value))
  | [] => some []
  | (pieces, outline) :: members =>
    match Quoted.text? pieces, ofOutline? outline, ofMembers? members with
    | some key, some value, some rest => some (insertNew key value rest)
    | _, _, _ => none

end

/-! ## Writing -/

mutual

/-- The compact text of a value. -/
def write : Value → Bytes
  | .null => Ascii.bytes ['n', 'u', 'l', 'l']
  | .truth true => Ascii.bytes ['t', 'r', 'u', 'e']
  | .truth false => Ascii.bytes ['f', 'a', 'l', 's', 'e']
  | .number numeral => numeral.write
  | .text string => Quoted.write string
  | .list [] => Ascii.bytes ['[', ']']
  | .list (item :: items) => '['.toUInt8 :: (write item ++ writeItems items)
  | .object [] => Ascii.bytes ['{', '}']
  | .object ((key, value) :: members) =>
    '{'.toUInt8 :: (Quoted.write key ++ ':'.toUInt8 :: (write value ++ writeMembers members))

/-- The text of the items after the first, and the end of their list. -/
def writeItems : List Value → Bytes
  | [] => [']'.toUInt8]
  | item :: items => ','.toUInt8 :: (write item ++ writeItems items)

/-- The text of the members after the first, and the end of their object. -/
def writeMembers : List (String × Value) → Bytes
  | [] => ['}'.toUInt8]
  | (key, value) :: members =>
    ','.toUInt8 :: (Quoted.write key ++ ':'.toUInt8 :: (write value ++ writeMembers members))

end

/-! ## Depth -/

mutual

/-- How many containers stand around the innermost one, it included. -/
def depth : Value → Nat
  | .list items => depthOfItems items + 1
  | .object members => depthOfMembers members + 1
  | _ => 0

/-- The greatest depth among items. -/
def depthOfItems : List Value → Nat
  | [] => 0
  | item :: items => max item.depth (depthOfItems items)

/-- The greatest depth among the values of members. -/
def depthOfMembers : List (String × Value) → Nat
  | [] => 0
  | (_, value) :: members => max value.depth (depthOfMembers members)

end

end Value

end TieredCache.Json
