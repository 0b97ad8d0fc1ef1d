import TieredCache.Digest
import TieredCache.Entry.Basic

/-!
# Records

The form of an entry on disk: one JSON object, in a file named by the digest of the key. A record holds
no artifacts, so an entry read from one is not hydrated.
-/

namespace TieredCache

open Json

/-! ## Writing -/

/-- The form of tags in a record. What is absent is left out. -/
def Tags.toValue (tags : Tags) : Value :=
  .object
    ((tags.shorthand.toList.map fun text => ("notation", .text text)) ++
      tags.description.toList.map fun text => ("description", .text text))

namespace Entry

/-- The form of an entry in a record. -/
def toValue (entry : Entry) : Value :=
  .object
    ([("key", .text entry.key),
      ("referencePaths", .list (entry.paths.map .text)),
      ("params", entry.params.toValue)] ++
      (entry.tags.toList.map fun tags => ("tags", tags.toValue)) ++
      [("createdAt", entry.created.toValue),
        ("lastAccessedAt", entry.accessed.toValue),
        ("accessCount", .number (.whole entry.count.toNat))])

/-- The record of an entry. -/
def record (entry : Entry) : Bytes := entry.toValue.write

end Entry

/-- The name of the file that holds the record of a key. -/
def recordName (key : String) : String :=
  String.ofList (Digest.sha1 (Utf8.encode key) ++ ".json".toList)

/-! ## Reading -/

/-- The tags of an outline. -/
def Tags.ofOutline? (outline : Outline) : Option Tags :=
  match Fields.ofOutline? ["notation", "description"] outline with
  | some [shorthand, description] => do
    let shorthand ← (shorthand.getD .null).stringOrNull?
    let description ← (description.getD .null).stringOrNull?
    return ⟨shorthand, description⟩
  | _ => none

/-- Tags that may be null. -/
def Tags.ofOutlineOrNull? : Outline → Option (Option Tags)
  | .null => some none
  | outline => (Tags.ofOutline? outline).map some

namespace Entry

/-- The fields of a record. -/
def fieldNames : List String :=
  ["key", "referencePaths", "params", "tags", "createdAt", "lastAccessedAt", "accessCount"]

/-- The entry of an outline. Parameters, tags and count may be left out. -/
def ofOutline? (outline : Outline) : Option Entry :=
  match Fields.ofOutline? fieldNames outline with
  | some [some key, some paths, params, tags, some created, some accessed, count] => do
    let key ← key.string?
    let paths ← paths.strings?
    let params ← (params.map (Params.ofOutline? 1)).getD (some .empty)
    let tags ← Tags.ofOutlineOrNull? (tags.getD .null)
    let created ← Moment.ofOutline? created
    let accessed ← Moment.ofOutline? accessed
    let count ← (count.map (Outline.natural? (2 ^ 64 - 1))).getD (some 0)
    return {
      key, paths, params, tags, created, accessed
      count := UInt64.ofNat count
      artifacts := []
      hydrated := false
      stamp := 0 }
  | _ => none

/-- The entry of a record. -/
def read? (bytes : Bytes) : Option Entry := (Outline.read? bytes).bind ofOutline?

/-- The entry of a record, if it is the entry of the given key. -/
def readOwn? (key : String) (bytes : Bytes) : Option Entry :=
  (read? bytes).filter fun entry => entry.key == key

end Entry

/-- The key in a record of which nothing else is decoded. -/
def embeddedKey? (bytes : Bytes) : Option String :=
  match (Outline.read? bytes).bind (Fields.ofOutline? ["key"]) with
  | some [some key] => key.string?
  | _ => none

end TieredCache
