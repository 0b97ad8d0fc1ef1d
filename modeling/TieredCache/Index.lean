import TieredCache.Json.Fields
import TieredCache.Keyed

/-!
# Indexes

The index of tier 2 says which file holds the record of a key. Its file is a JSON object of strings,
written with one member a line.
-/

namespace TieredCache

open Json

/-- File names of records by key. -/
abbrev Index := Keyed String

namespace Index

/-! ## Writing -/

/-- One line of the file of an index, without its end. -/
def line (member : String × String) : Bytes :=
  Ascii.bytes [' ', ' '] ++ Quoted.write member.1 ++ Ascii.bytes [':', ' '] ++
    Quoted.write member.2

/-- The lines after the first. -/
def lines : Index → Bytes
  | [] => Ascii.bytes ['\n', '}']
  | member :: rest => Ascii.bytes [',', '\n'] ++ line member ++ lines rest

/-- The file of an index. -/
def write : Index → Bytes
  | [] => Ascii.bytes ['{', '}']
  | member :: rest => Ascii.bytes ['{', '\n'] ++ line member ++ lines rest

/-! ## Reading -/

/-- Takes up the members of an object. Of two with one key, the later counts. -/
def ofMembers? : List (List Piece × Outline) → Index → Option Index
  | [], index => some index
  | (pieces, value) :: members, index =>
    match Quoted.text? pieces, value.string? with
    | some key, some name => ofMembers? members (index.put key name)
    | _, _ => none

/-- The index of an object of strings. -/
def ofOutline? : Outline → Option Index
  | .object members => ofMembers? members []
  | _ => none

/-- The index of a file. -/
def read? (bytes : Bytes) : Option Index := (Outline.read? bytes).bind ofOutline?

end Index

end TieredCache
