import TieredCache.Archive.Recovery
import TieredCache.Proofs.Disk.Nodes

/-!
# Names of records

The name of a record is forty hexadecimal digits and an end. It is followed as it stands, it is the
name of a record to a scan, and no sweep takes it for a file that was still being written.
-/

namespace TieredCache

/-- The characters of the names of records. -/
def nameChars : List Char := "0123456789abcdef.json".toList

theorem hexDigit_mem_nameChars :
    ∀ value : Nat, value < 16 → Ascii.hexDigit value ∈ nameChars := by
  decide +kernel

theorem nameChars_spec :
    ∀ character ∈ nameChars, character.utf8Size = 1 ∧ character ≠ '/' ∧ character ≠ '\x00' := by
  have checked : nameChars.all (fun character =>
      decide (character.utf8Size = 1 ∧ character ≠ '/' ∧ character ≠ '\x00')) = true := by
    decide +kernel
  intro character found
  exact of_decide_eq_true (List.all_eq_true.1 checked character found)

theorem hexWord_mem_nameChars (word : UInt32) :
    ∀ character ∈ Digest.hexWord word, character ∈ nameChars := by
  intro character found
  obtain ⟨place, _, rfl⟩ := List.mem_map.1 found
  exact hexDigit_mem_nameChars _ (Nat.mod_lt _ (by decide))

theorem recordName_mem_nameChars (key : String) :
    ∀ character ∈ (recordName key).toList, character ∈ nameChars := by
  have ending : ∀ character ∈ ".json".toList, character ∈ nameChars := by
    have checked : ".json".toList.all nameChars.contains = true := by decide +kernel
    intro character found
    exact List.contains_iff_mem.1 (List.all_eq_true.1 checked character found)
  intro character found
  rw [recordName, String.toList_ofList, Digest.sha1] at found
  simp only [List.mem_append] at found
  rcases found with ((((found | found) | found) | found) | found) | found
  · exact hexWord_mem_nameChars _ character found
  · exact hexWord_mem_nameChars _ character found
  · exact hexWord_mem_nameChars _ character found
  · exact hexWord_mem_nameChars _ character found
  · exact hexWord_mem_nameChars _ character found
  · exact ending character found

theorem length_recordName (key : String) : (recordName key).toList.length = 45 := by
  rw [recordName, String.toList_ofList, List.length_append, Digest.length_sha1]
  rfl

theorem utf8ByteSize_ofList {characters : List Char}
    (narrow : ∀ character ∈ characters, character.utf8Size = 1) :
    (String.ofList characters).utf8ByteSize = characters.length := by
  induction characters with
  | nil => rfl
  | cons character characters induction =>
      obtain ⟨first, later⟩ := List.forall_mem_cons.1 narrow
      rw [← List.singleton_append, String.ofList_append, String.utf8ByteSize_append, induction later,
        ← String.singleton_eq_ofList, String.utf8ByteSize_singleton, first]
      simp only [List.singleton_append, List.length_cons]
      omega

/-- The name of a record takes 45 bytes. -/
theorem utf8ByteSize_recordName (key : String) : (recordName key).utf8ByteSize = 45 := by
  rw [← String.ofList_toList (s := recordName key), utf8ByteSize_ofList, length_recordName]
  exact fun character found => (nameChars_spec _ (recordName_mem_nameChars key character found)).1

theorem plain_recordName (key : String) : Disk.Plain (recordName key) := by
  have size := utf8ByteSize_recordName key
  refine ⟨?_, ?_, ?_, by rw [size]; decide⟩ <;>
    · intro same
      rw [same] at size
      cases size

theorem isRecordName_recordName (key : String) : Archive.isRecordName (recordName key) = true := by
  have ends : Archive.recordEnd <:+ (recordName key).toList := by
    rw [recordName, String.toList_ofList]
    exact List.suffix_append _ _
  have longer : Archive.recordEnd.length < (recordName key).toList.length := by
    rw [length_recordName]
    decide
  rw [Archive.isRecordName, List.isSuffixOf_iff_suffix.2 ends]
  simpa using longer

/-- No file with the name of a record is one that was still being written. -/
theorem Archive.isTemporary_of_isRecordName {name : String} (named : isRecordName name = true) :
    Disk.isTemporary name = false := by
  rw [isRecordName, Bool.and_eq_true] at named
  obtain ⟨front, record⟩ := List.isSuffixOf_iff_suffix.1 named.1
  cases temporary : Disk.isTemporary name with
  | false => rfl
  | true =>
      obtain ⟨other, same⟩ := List.isSuffixOf_iff_suffix.1 temporary
      have last := congrArg List.getLast? (same.trans record.symm)
      rw [List.getLast?_append, List.getLast?_append] at last
      simp [Disk.temporaryEnd, recordEnd] at last

theorem isTemporary_recordName (key : String) : Disk.isTemporary (recordName key) = false :=
  Archive.isTemporary_of_isRecordName (isRecordName_recordName key)

/-! ## Routes to records -/

theorem cut_eq {characters : List Char} (no_slash : ∀ character ∈ characters, character ≠ '/') :
    Route.cut characters = [characters] := by
  induction characters with
  | nil => rfl
  | cons character characters induction =>
      obtain ⟨first, later⟩ := List.forall_mem_cons.1 no_slash
      rw [Route.cut.eq_def]
      simp only [induction later]

/-- A name without a slash is that of a file in a folder. -/
def NoSlash (name : String) : Prop := ∀ character ∈ name.toList, character ≠ '/'

instance (name : String) : Decidable (NoSlash name) := List.decidableBAll (· ≠ '/') name.toList

theorem join_of_no_slash (directory : Route) {name : String}
    (no_slash : ∀ character ∈ name.toList, character ≠ '/') :
    Route.join directory name = directory ++ [name] := by
  have components : Route.components name = [name] := by
    rw [Route.components, cut_eq no_slash]
    simp
  rw [Route.join]
  split
  · rename_i rest slash
    exact absurd rfl (no_slash '/' (by rw [slash]; exact List.mem_cons_self))
  · rw [components]

/-- The record of a key lies in the folder of the records. -/
theorem Archive.place_recordName (archive : Archive) (key : String) :
    archive.place (recordName key) = archive.records ++ [recordName key] :=
  join_of_no_slash _ fun character found =>
    (nameChars_spec _ (recordName_mem_nameChars key character found)).2.1

end TieredCache
