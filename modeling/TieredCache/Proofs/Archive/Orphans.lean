import TieredCache.Proofs.Archive.Operations
import TieredCache.Proofs.Archive.Rebuilding
import TieredCache.Proofs.Entry.Keys
import TieredCache.Proofs.Entry.Skimming

/-!
# Records that no index names

A record that a load would accept is found again by a rebuilding, under whatever name it lies among the
records: the key that a scan reads from it is the key of its entry.
-/

namespace TieredCache

open Json

/-- Whether an outline is that of an object. -/
def Json.Outline.isObject : Outline → Bool
  | .object _ => true
  | _ => false

theorem Json.Outline.isObject_iff {outline : Outline} :
    outline.isObject = true ↔ ∃ members, outline = .object members := by
  cases outline <;> simp [isObject]

namespace Archive

/-- If an entry is read from an object, its key is read alone too, also in one pass that takes up no other
member. A rebuilding leads from the key to the only file that holds a record of it, and the entry is loaded
from there. -/
theorem recovers_accepted {bytes : Bytes} {members : List (List Piece × Outline)} {entry : Entry}
    (object : Outline.read? bytes = some (.object members)) (read : Entry.read? bytes = some entry) :
    embeddedKey? bytes = some entry.key ∧ skimmedKey? bytes = some entry.key ∧
      ∀ (archive : Archive) (disk : Disk) (name : String), isRecordName name = true → NoSlash name →
        disk.read (archive.records ++ [name]) = .ok bytes →
        (∀ other, RecordOf archive.root disk entry.key other → other = name) →
          let rebuilt := archive.rebuild disk
          rebuilt.archive.index.get? entry.key = some name ∧
            (rebuilt.archive.load (disk.perform rebuilt.effects) entry.key).answer = some entry := by
  have own := embeddedKey?_of_read? object read
  refine ⟨own, (skimmedKey?_eq object).trans own, fun archive disk name named no_slash there only => ?_⟩
  intro rebuilt
  have record : RecordOf archive.root disk entry.key name := ⟨named, bytes, there, own⟩
  have indexed : rebuilt.archive.index.get? entry.key = some name := by
    rw [(archive.rebuild_spec disk).1]
    refine Keyed.get?_of_mem (nodup_census archive.root disk) ((mem_census_iff ?_).2 record)
    exact fun left right own_left own_right => (only left own_left).trans (only right own_right).symm
  have place : rebuilt.archive.place name = archive.records ++ [name] := by
    rw [Archive.place, join_of_no_slash _ no_slash, records, (archive.rebuild_spec disk).1, records]
  refine ⟨indexed, ?_⟩
  rw [answer_load, shelf, indexed, Option.bind_some, place, archive.read_rebuild, there]
  exact Option.filter_eq_some_iff.2 ⟨read, by simp⟩

/-- A record whose members come in an order of their own, with escapes and blanks, and with one that has no
value. -/
def tangled : Bytes := Utf8.encode
  "\x7b\n \"more\": [1e999, \x7b\"\\ud800\": [[]]\x7d], \"lastAccessedAt\": [5, 0], \"\\u006bey\" : \"orp\\u0068an\",
    \"createdAt\": \x7b\"nanos_since_epoch\": 0, \"secs_since_epoch\": 5\x7d, \"referencePaths\": [\"p\"]\x7d"

/-- That record among the records of a directory. -/
def strewn : Disk :=
  ⟨[(["cache"], .folder), (["cache", "records"], .folder),
    (["cache", "records", "odd.json"], .file tangled)]⟩

/-- The entry is read from the record, and loaded after a rebuilding. -/
theorem recovers_tangled :
    ∃ members entry, Outline.read? tangled = some (.object members) ∧
      Entry.read? tangled = some entry ∧ embeddedKey? tangled = some "orphan" ∧
      skimmedKey? tangled = some "orphan" ∧
      (rebuild ⟨["cache"], []⟩ strewn).archive.index.get? "orphan" = some "odd.json" ∧
      ((rebuild ⟨["cache"], []⟩ strewn).archive.load
        (strewn.perform (rebuild ⟨["cache"], []⟩ strewn).effects) "orphan").answer = some entry := by
  have is_object : (Outline.read? tangled).any Outline.isObject = true := by decide +kernel
  have is_entry : (Entry.read? tangled).map Entry.key = some "orphan" := by decide +kernel
  obtain ⟨entry, read, own⟩ := Option.map_eq_some_iff.1 is_entry
  obtain ⟨outline, outlined, of_object⟩ := (Option.any_eq_true _ _).1 is_object
  obtain ⟨members, rfl⟩ := Outline.isObject_iff.1 of_object
  obtain ⟨embedded, skimmed, recovered⟩ := recovers_accepted outlined read
  have only : ∀ other, RecordOf ["cache"] strewn entry.key other → other = "odd.json" := by
    rintro other ⟨_, bytes, there, _⟩
    obtain ⟨names, listing, among⟩ := Disk.mem_list_of_read there
    have listed : strewn.list (["cache"] ++ ["records"]) = .ok ["odd.json"] := by decide +kernel
    cases listed.symm.trans listing
    simpa using among
  have again := recovered ⟨["cache"], []⟩ strewn "odd.json" (by decide) (by decide) (by decide +kernel) only
  rw [own] at embedded skimmed again
  exact ⟨members, entry, outlined, read, embedded, skimmed, again⟩

end Archive

end TieredCache
