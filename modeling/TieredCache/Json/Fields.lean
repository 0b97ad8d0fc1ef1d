import TieredCache.Json.Value

/-!
# Fields of a structure

A structure is read from an object whose keys are the names of its fields, or from an array that holds
the fields in their order. Members of an object that are no field are passed over: their keys are
decoded and their values are not.
-/

namespace TieredCache.Json

/-- How many containers may be nested in a text. -/
def maxDepth : Nat := 127

/-- The fields of a structure that a text gives, in their order. -/
abbrev Fields := List (Option Outline)

namespace Fields

/-- Sets the field of a name. A name may come once; a name of no field sets nothing. -/
def set? (name : String) (value : Outline) : List String → Fields → Option Fields
  | field :: names, held :: fields =>
    if name = field then
      match held with
      | none => some (some value :: fields)
      | some _ => none
    else (set? name value names fields).map (held :: ·)
  | _, fields => some fields

/-- Takes up the members of an object, in their order. -/
def ofMembers? (names : List String) : List (List Piece × Outline) → Fields → Option Fields
  | [], fields => some fields
  | (pieces, value) :: members, fields =>
    match Quoted.text? pieces with
    | none => none
    | some name => (set? name value names fields).bind (ofMembers? names members)

/-- The items of an array as fields. There may be fewer items than fields, and not more. -/
def ofItems? : List String → List Outline → Option Fields
  | names, [] => some (names.map fun _ => none)
  | [], _ :: _ => none
  | _ :: names, item :: items => (ofItems? names items).map (some item :: ·)

/-- The fields of a structure. -/
def ofOutline? (names : List String) : Outline → Option Fields
  | .object members => ofMembers? names members (names.map fun _ => none)
  | .list items => ofItems? names items
  | _ => none

/-- Whether every key of an object is the name of a field. -/
def namesOnly (names : List String) : Outline → Bool
  | .object members =>
    members.all fun (pieces, _) =>
      match Quoted.text? pieces with
      | some name => names.contains name
      | none => false
  | _ => true

end Fields

/-! ## Values of fields -/

namespace Outline

/-- A string. -/
def string? : Outline → Option String
  | .text pieces => Quoted.text? pieces
  | _ => none

/-- A truth value. -/
def truth? : Outline → Option Bool
  | .truth value => some value
  | _ => none

/-- An unsigned integer up to a limit, written without point and exponent. -/
def natural? (limit : Nat) : Outline → Option Nat
  | .number numeral => numeral.natural? limit
  | _ => none

/-- A list of strings. -/
def strings? : Outline → Option (List String)
  | .list items => items.mapM string?
  | _ => none

/-- A string that may be null. -/
def stringOrNull? : Outline → Option (Option String)
  | .null => some none
  | outline => outline.string?.map some

end Outline

end TieredCache.Json
