import TieredCache.Disk.Effect
import TieredCache.Entry.Record
import TieredCache.Fault
import TieredCache.Index

/-!
# Tier 2: the archive

An archive keeps one record file for each key and an index of them, in memory and in a file. A record is
written before the index that names it, so that a crash leaves at worst a record that no index names.
Nothing that goes wrong here is an error of the caller: it becomes a notice.
-/

namespace TieredCache

/-- An open archive. -/
structure Archive where
  /-- Its directory. -/
  root : Route
  /-- The index, as it is in memory. -/
  index : Index
  deriving DecidableEq, Repr

/-- What an operation on an archive does. -/
structure Outcome (α : Type) where
  /-- Its answer. -/
  answer : α
  /-- The archive afterwards. -/
  archive : Archive
  /-- What it changes on the disk, in order. -/
  effects : List Effect
  /-- What it warns of, in order. -/
  notices : List Notice

namespace Archive

/-- The name of the file of the index. -/
def indexName : String := "index.json"

/-- The directory of the records. -/
def records (archive : Archive) : Route := archive.root ++ ["records"]

/-- The file of the index. -/
def indexFile (archive : Archive) : Route := archive.root ++ [indexName]

/-- Where a record of an indexed name is. -/
def place (archive : Archive) (name : String) : Route := archive.records.join name

/-- Whether a key is indexed. -/
def contains (archive : Archive) (key : String) : Bool := archive.index.has key

/-- The number of indexed keys. -/
def size (archive : Archive) : Nat := archive.index.length

/-- Writes the index to its file. A failure is only noted. -/
def save (archive : Archive) (disk : Disk) (failure : Notice) : List Effect × List Notice :=
  match disk.replacement archive.root indexName archive.index.write with
  | .ok effects => (effects, [])
  | .error _ => ([], [failure])

/-! ## Spilling -/

/-- Keeps an entry that tier 1 evicts. If its record cannot be written, nothing changes. -/
def spill (archive : Archive) (disk : Disk) (key : String) (entry : Entry) : Outcome Unit :=
  let name := recordName key
  match disk.replacement archive.records name entry.record with
  | .error _ => ⟨(), archive, [], [.failedSpill]⟩
  | .ok effects =>
    let archive := { archive with index := archive.index.put key name }
    let (saving, notices) := archive.save (disk.perform effects) .unsavedSpill
    ⟨(), archive, effects ++ saving, notices⟩

/-! ## Loading -/

/-- What a look at the record of a key finds. -/
inductive Verdict where
  /-- The key is not indexed. -/
  | absent
  /-- The record of the key. -/
  | sound (entry : Entry)
  /-- The file is not there. -/
  | missing
  /-- The file cannot be read. -/
  | unread
  /-- The file, of the given name, holds no record of the key. -/
  | corrupt (name : String)

/-- What a look warns of at once. -/
def Verdict.notices : Verdict → List Notice
  | .unread => [.unreadRecord]
  | .corrupt _ => [.purgedRecord]
  | _ => []

/-- Looks at the record of a key and changes nothing. -/
def inspect (archive : Archive) (disk : Disk) (key : String) : Verdict :=
  match archive.index.get? key with
  | none => .absent
  | some name =>
    match disk.read (archive.place name) with
    | .error .missing => .missing
    | .error .obstacle => .unread
    | .ok bytes =>
      match Entry.readOwn? key bytes with
      | some entry => .sound entry
      | none => .corrupt name

/-- Takes a key out of the index, in memory and in the file. -/
def forget (archive : Archive) (disk : Disk) (key : String) : Outcome Unit :=
  if archive.contains key then
    let archive := { archive with index := archive.index.erase key }
    let (effects, notices) := archive.save disk .unsavedRepair
    ⟨(), archive, effects, notices⟩
  else ⟨(), archive, [], []⟩

/-- Acts on a verdict: a key without a record is forgotten, and a corrupt record is deleted first. -/
def settle (archive : Archive) (disk : Disk) (key : String) : Verdict → Outcome (Option Entry)
  | .absent => ⟨none, archive, [], []⟩
  | .sound entry => ⟨some entry, archive, [], []⟩
  | .unread => ⟨none, archive, [], []⟩
  | .missing =>
    let outcome := archive.forget disk key
    ⟨none, outcome.archive, outcome.effects, outcome.notices⟩
  | .corrupt name =>
    let deletion :=
      match disk.deletion (archive.place name) with
      | .ok effect => [effect]
      | .error _ => []
    let outcome := archive.forget (disk.perform deletion) key
    ⟨none, outcome.archive, deletion ++ outcome.effects, outcome.notices⟩

/-- The entry of a key, if its record is in order. What is broken is repaired. -/
def load (archive : Archive) (disk : Disk) (key : String) : Outcome (Option Entry) :=
  let verdict := archive.inspect disk key
  let outcome := archive.settle disk key verdict
  { outcome with notices := verdict.notices ++ outcome.notices }

/-! ## Removing -/

/-- Deletes the record of a key and takes the key out of the index. The answer is whether the key was
indexed or had a record. -/
def remove (archive : Archive) (disk : Disk) (key : String) : Outcome Bool :=
  let indexed := archive.index.get? key
  let (deletion, notices) : List Effect × List Notice :=
    match disk.deletion (archive.place (indexed.getD (recordName key))) with
    | .ok effect => ([effect], [])
    | .error .missing => ([], [])
    | .error .obstacle => ([], [.undeletedRecord])
  if indexed.isSome then
    let archive := { archive with index := archive.index.erase key }
    let (saving, failures) := archive.save (disk.perform deletion) .unsavedRemoval
    ⟨true, archive, deletion ++ saving, notices ++ failures⟩
  else ⟨!deletion.isEmpty, archive, deletion, notices⟩

/-- Deletes the files of a list of names. One that is missing is passed over. -/
def deleteAll (archive : Archive) : Disk → List String → List Effect × List Notice
  | _, [] => ([], [])
  | disk, name :: names =>
    match disk.deletion (archive.place name) with
    | .ok effect =>
      let (effects, notices) := deleteAll archive (disk.apply effect) names
      (effect :: effects, notices)
    | .error .missing => deleteAll archive disk names
    | .error .obstacle =>
      let (effects, notices) := deleteAll archive disk names
      (effects, .undeletedRecord :: notices)

/-- Deletes every indexed record and empties the index. The answer is how many keys were indexed. -/
def clear (archive : Archive) (disk : Disk) : Outcome Nat :=
  let (deletions, notices) := archive.deleteAll disk (archive.index.map Prod.snd)
  let emptied := { archive with index := [] }
  let (saving, failures) := emptied.save (disk.perform deletions) .unsavedClear
  ⟨archive.size, emptied, deletions ++ saving, notices ++ failures⟩

end Archive

end TieredCache
