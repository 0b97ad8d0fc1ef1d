/-!
# Routes

A route is the written form of a path, cut at its slashes. Its components are followed one by one on a
disk: an empty one and a dot stay where they are, two dots go up.
-/

namespace TieredCache

/-- The components of a path as it is written, from the root of a disk. -/
abbrev Route := List String

namespace Route

/-- Cuts a text at its slashes. -/
def cut : List Char → List (List Char)
  | [] => [[]]
  | character :: rest =>
    match character, cut rest with
    | '/', components => [] :: components
    | _, [] => [[character]]
    | _, component :: components => (character :: component) :: components

/-- The components of a text. -/
def components (text : String) : List String := (cut text.toList).map String.ofList

/-- A path inside a directory. One that begins with a slash leaves the directory. -/
def join (directory : Route) (text : String) : Route :=
  match text.toList with
  | '/' :: rest => (cut rest).map String.ofList
  | _ => directory ++ components text

/-- The length of the written path in bytes. -/
def size (route : Route) : Nat :=
  route.foldr (fun component rest => component.utf8ByteSize + 1 + rest) 0

/-- The greatest length of a written path. -/
def maxSize : Nat := 4095

/-- The greatest length of a name. -/
def maxNameSize : Nat := 255

/-- Whether a path can be handed to a disk at all. -/
def isLegal (route : Route) : Bool :=
  decide (route.size ≤ maxSize) && route.all fun component =>
    component.toList.all fun character => character != '\x00'

end Route

end TieredCache
