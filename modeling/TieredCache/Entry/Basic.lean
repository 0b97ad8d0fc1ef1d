import TieredCache.Artifact
import TieredCache.Json.Ordered
import TieredCache.Moment

/-!
# Entries

An entry is a key with its reference paths and what is known about them. Its artifacts, its hydration
flag and its stamp belong to this process; the rest is what a record keeps.
-/

namespace TieredCache

open Json

/-- Parameters of an entry: the members of a JSON object, in the order of their keys. -/
structure Params where
  members : List (String × Value)
  /-- Keys ascend here and in every object below. -/
  ordered : (Value.object members).Ordered

namespace Params

/-- No parameters. -/
def empty : Params := ⟨[], List.Pairwise.nil, trivial⟩

instance : Inhabited Params := ⟨empty⟩

/-- The parameters with the given members, if they have values. -/
def ofMembers? (members : List (List Piece × Outline)) : Option Params :=
  match decoded : Value.ofMembers? members with
  | some members => some ⟨members, Value.orderedMembers_of_ofMembers? decoded⟩
  | none => none

/-- The parameters of an object inside `around` open containers. -/
def ofOutline? (around : Nat) (outline : Outline) : Option Params :=
  if outline.depth + around ≤ maxDepth then
    match outline with
    | .object members => ofMembers? members
    | _ => none
  else none

/-- The parameters that a text of their own gives. -/
def read? (text : Bytes) : Option Params := (Outline.read? text).bind (ofOutline? 0)

/-- The object of the parameters. -/
def toValue (params : Params) : Value := .object params.members

end Params

/-- Words about an entry. -/
structure Tags where
  /-- A short form of what the paths refer to. -/
  shorthand : Option String := none
  /-- Free text. -/
  description : Option String := none
  deriving DecidableEq, Repr

/-- A key with its reference paths. -/
structure Entry where
  key : String
  paths : List String
  params : Params
  tags : Option Tags
  created : Moment
  accessed : Moment
  /-- How often the entry has been read. -/
  count : UInt64
  /-- The artifacts of the paths that have been resolved. -/
  artifacts : Artifacts
  /-- A hydration has come to an end, or the caller brought the artifacts. -/
  hydrated : Bool
  /-- The slot of tier 1 that this copy was read from; zero for none. -/
  stamp : UInt64

namespace Entry

/-- An entry made now, with no parameters, no tags and no artifacts. -/
def new (key : String) (paths : List String) (now : Moment) : Entry where
  key := key
  paths := paths
  params := .empty
  tags := none
  created := now
  accessed := now
  count := 0
  artifacts := []
  hydrated := false
  stamp := 0

/-- The entry with artifacts that its caller brought. It counts as hydrated, even with none. -/
def withArtifacts (entry : Entry) (artifacts : Artifacts) : Entry :=
  { entry with artifacts, hydrated := true }

/-- The entry after one more read. Past the greatest count it goes on from zero, as in a build without
overflow checks; one with them stops there. -/
def touch (entry : Entry) (now : Moment) : Entry :=
  { entry with accessed := now, count := entry.count + 1 }

/-- Whether the tags hold a shorthand. -/
def hasShorthand (entry : Entry) : Bool := (entry.tags.bind Tags.shorthand).isSome

/-- The entry with a shorthand, unless it has one. -/
def describe (entry : Entry) (shorthand : String) : Entry :=
  let tags := entry.tags.getD {}
  { entry with tags := some { tags with shorthand := tags.shorthand <|> some shorthand } }

/-- The entry with the artifact of one path. -/
def resolve (entry : Entry) (path : String) (artifact : Artifact) : Entry :=
  { entry with artifacts := entry.artifacts.put path artifact }

/-- The entry after a hydration. One that was cut short before it found anything does not count. -/
def finish (entry : Entry) (complete : Bool) : Entry :=
  if complete || !entry.artifacts.isEmpty then { entry with hydrated := true } else entry

/-- The entry with the hydration of another copy. -/
def adopt (entry copy : Entry) : Entry :=
  { entry with artifacts := copy.artifacts, hydrated := copy.hydrated }

end Entry

end TieredCache
