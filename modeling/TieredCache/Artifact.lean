import TieredCache.Keyed

/-!
# Artifacts

What a reference path resolves to. An artifact lives in this process only: it is shared, never stored,
and told apart by its handle.
-/

namespace TieredCache

/-- What an artifact holds. -/
inductive Artifact.Content where
  | text (text : String)
  | number (number : UInt64)
  | flag (flag : Bool)
  /-- Something of a kind that this library does not look into. -/
  | hidden
  deriving DecidableEq, Repr

/-- A shared artifact. -/
structure Artifact where
  /-- Two artifacts made at different times have different handles. -/
  handle : Nat
  content : Artifact.Content
  deriving DecidableEq, Repr

namespace Artifact

/-- Whether two artifacts are one and the same. -/
def same (left right : Artifact) : Bool := left.handle == right.handle

end Artifact

/-- Artifacts by reference path. -/
abbrev Artifacts := Keyed Artifact

end TieredCache
