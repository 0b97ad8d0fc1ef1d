import TieredCache.Index
import TieredCache.Proofs.Json.Outlines
import TieredCache.Proofs.Keyed

/-!
# The file of an index

An index whose keys are distinct is read back from its file.
-/

namespace TieredCache

open Json Json.Outline

namespace Json.Outline.State

theorem read?_blank (state : State) {byte : UInt8} (blank : Ascii.isBlank byte = true)
    (text : Bytes) : state.read? (byte :: text) = state.read? text := by
  rw [State.read?, Token.readAll_blank blank, ← State.read?]

end Json.Outline.State

namespace Index

/-- The outline of a member of the file. -/
def outlineMember (member : String × String) : List Piece × Outline :=
  (Quoted.pieces member.1, .text (Quoted.pieces member.2))

/-- A line is read as one member more. -/
theorem read?_line {state : State} {held : List (List Piece × Outline)}
    (member : String × String)
    (key : state.step? (.text (Quoted.pieces member.1)) =
      some (.objectColon held (Quoted.pieces member.1) [])) (text : Bytes) :
    state.read? (line member ++ text) =
      (State.objectNext (outlineMember member :: held) []).read? text := by
  have blanks : state.read? (line member ++ text) =
      state.read? (Quoted.write member.1 ++ (Ascii.bytes [':', ' '] ++
        (Quoted.write member.2 ++ text))) := by
    simp only [line, List.append_assoc]
    exact (State.read?_blank _ rfl _).trans (State.read?_blank _ rfl _)
  have named := State.read?_text state member.1
    (Ascii.bytes [':', ' '] ++ (Quoted.write member.2 ++ text)) key
  have colon := State.read?_mark (.objectColon held (Quoted.pieces member.1) []) ':'.toUInt8
    (' '.toUInt8 :: (Quoted.write member.2 ++ text)) rfl rfl rfl
  have blank := State.read?_blank (.value [.object held (Quoted.pieces member.1)])
    (show Ascii.isBlank ' '.toUInt8 = true from rfl) (Quoted.write member.2 ++ text)
  have value := State.read?_text (.value [.object held (Quoted.pieces member.1)]) member.2 text rfl
  exact blanks.trans (named.trans (colon.trans (blank.trans value)))

/-- The lines after the first end the object, together with the members before them. -/
theorem read?_lines (index : Index) (held : List (List Piece × Outline)) :
    (State.objectNext held []).read? (lines index) =
      some (.finished (.object (held.reverse ++ index.map outlineMember))) := by
  induction index generalizing held with
  | nil =>
      have blank := State.read?_blank (.objectNext held [])
        (show Ascii.isBlank '\n'.toUInt8 = true from rfl) ['}'.toUInt8]
      have closed := State.read?_mark (.objectNext held []) '}'.toUInt8 [] rfl rfl rfl
      rw [List.map_nil, List.append_nil]
      exact blank.trans closed
  | cons member index induction =>
      have comma := State.read?_mark (.objectNext held []) ','.toUInt8
        ('\n'.toUInt8 :: (line member ++ lines index)) rfl rfl rfl
      have blank := State.read?_blank (.objectKey held [])
        (show Ascii.isBlank '\n'.toUInt8 = true from rfl) (line member ++ lines index)
      have first := read?_line member (show (State.objectKey held []).step? _ = _ from rfl)
        (lines index)
      have others := induction (outlineMember member :: held)
      rw [List.reverse_cons, List.append_assoc] at others
      rw [lines, List.append_assoc]
      exact comma.trans (blank.trans (first.trans others))

theorem outline_write (index : Index) :
    Outline.read? index.write = some (.object (index.map outlineMember)) := by
  rw [Outline.read?_eq]
  cases index with
  | nil =>
      have opened := State.read?_mark (.value []) '{'.toUInt8 ['}'.toUInt8] rfl rfl rfl
      have closed := State.read?_mark (.objectStart []) '}'.toUInt8 [] rfl rfl rfl
      have read : (State.value []).read? (write []) = some (.finished (.object [])) :=
        opened.trans closed
      rw [read]
      rfl
  | cons member index =>
      have opened := State.read?_mark (.value []) '{'.toUInt8
        ('\n'.toUInt8 :: (line member ++ lines index)) rfl rfl rfl
      have blank := State.read?_blank (.objectStart [])
        (show Ascii.isBlank '\n'.toUInt8 = true from rfl) (line member ++ lines index)
      have first := read?_line member (show (State.objectStart []).step? _ = _ from rfl)
        (lines index)
      have others := read?_lines index [outlineMember member]
      have read : (State.value []).read? (write (member :: index)) =
          some (.finished (.object ((member :: index).map outlineMember))) := by
        rw [write, List.append_assoc]
        exact opened.trans (blank.trans (first.trans others))
      rw [read]

theorem ofMembers?_outlineMember {index held : Index} (distinct : (held ++ index).keys.Nodup) :
    ofMembers? (index.map outlineMember) held = some (held ++ index) := by
  induction index generalizing held with
  | nil => simp [ofMembers?]
  | cons member index induction =>
      have absent : member.1 ∉ held.keys := by
        intro found
        simp only [Keyed.keys, List.map_append, List.map_cons, List.nodup_append] at distinct
        exact distinct.2.2 _ found _ List.mem_cons_self rfl
      have regrouped : held.put member.1 member.2 ++ index = held ++ member :: index := by
        rw [Keyed.put_of_not_mem absent, List.append_assoc]
        rfl
      rw [List.map_cons, outlineMember, ofMembers?, Quoted.text?_pieces, Outline.string?,
        Quoted.text?_pieces]
      simp only
      rw [induction (by rw [regrouped]; exact distinct), regrouped]

/-- An index is read back from its file. -/
theorem read?_write {index : Index} (distinct : index.keys.Nodup) :
    read? index.write = some index := by
  rw [read?, outline_write, Option.bind_some]
  exact @ofMembers?_outlineMember index [] distinct

end Index

end TieredCache
