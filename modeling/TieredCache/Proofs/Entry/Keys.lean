import TieredCache.Entry.Record

/-!
# The key of a record

Where a record is read with all its fields from an object, its key can be read alone, and is the same. The
members that one reading takes up and the other passes over do not matter.
-/

namespace TieredCache

open Json

namespace Json.Fields

variable {name member : String} {names more : List String} {value : Outline} {held fields after later : Fields}

theorem set?_cons (member : String) (value : Outline) (name : String) (names : List String)
    (first : Option Outline) (held : Fields) :
    set? member value (name :: names) (first :: held) =
      if member = name then
        match first with
        | none => some (some value :: held)
        | some _ => none
      else (set? member value names held).map (first :: ·) := rfl

/-- A member is set among the first fields alone as it is among all of them. -/
theorem set?_front (lengths : held.length = names.length)
    (set : set? member value (names ++ more) (held ++ fields) = some after) :
    set? member value names held = some (after.take names.length) := by
  induction names generalizing held after with
  | nil =>
      obtain rfl := List.length_eq_zero_iff.1 lengths
      rfl
  | cons name names induction =>
      obtain ⟨first, held, rfl⟩ := List.exists_cons_of_length_eq_add_one lengths
      have lengths_rest : held.length = names.length := by simpa using lengths
      rw [List.cons_append, List.cons_append, set?_cons] at set
      rw [set?_cons]
      split at set
      · rename_i here
        rw [if_pos here]
        cases first with
        | none =>
            obtain rfl := Option.some.inj set
            simp [← lengths_rest]
        | some old => cases set
      · rename_i elsewhere
        obtain ⟨rest, set_rest, rfl⟩ := Option.map_eq_some_iff.1 set
        rw [if_neg elsewhere, induction lengths_rest set_rest]
        rfl

theorem length_set? (set : set? member value names held = some after) : after.length = held.length := by
  induction names generalizing held after with
  | nil =>
      obtain rfl := Option.some.inj set
      rfl
  | cons name names induction =>
      cases held with
      | nil =>
          obtain rfl := Option.some.inj set
          rfl
      | cons first held =>
          rw [set?_cons] at set
          split at set
          · cases first with
            | none =>
                obtain rfl := Option.some.inj set
                rfl
            | some old => cases set
          · obtain ⟨rest, set_rest, rfl⟩ := Option.map_eq_some_iff.1 set
            simp [induction set_rest]

/-- The first fields of an object are read alone as they are with the others. -/
theorem ofMembers?_front {members : List (List Piece × Outline)} (lengths : held.length = names.length)
    (read : ofMembers? (names ++ more) members (held ++ fields) = some after) :
    ofMembers? names members held = some (after.take names.length) := by
  induction members generalizing held fields with
  | nil =>
      obtain rfl := Option.some.inj read
      rw [ofMembers?, ← lengths, List.take_left]
  | cons member members induction =>
      obtain ⟨pieces, value⟩ := member
      rw [ofMembers?] at read ⊢
      cases text : Quoted.text? pieces with
      | none =>
          rw [text] at read
          cases read
      | some found =>
          rw [text] at read
          obtain ⟨middle, set, read_rest⟩ := Option.bind_eq_some_iff.1 read
          have set_front := set?_front lengths set
          have kept : (middle.take names.length).length = names.length :=
            (length_set? set_front).trans lengths
          simp only [set_front, Option.bind_some]
          rw [← List.take_append_drop names.length middle] at read_rest
          exact induction kept read_rest

end Json.Fields

/-- If an entry is read from an object, its key is read alone too. -/
theorem embeddedKey?_of_read? {bytes : Bytes} {members : List (List Piece × Outline)} {entry : Entry}
    (object : Outline.read? bytes = some (.object members)) (read : Entry.read? bytes = some entry) :
    embeddedKey? bytes = some entry.key := by
  rw [Entry.read?, object, Option.bind_some] at read
  rw [embeddedKey?, object, Option.bind_some]
  unfold Entry.ofOutline? at read
  split at read
  · rename_i key paths params tags created accessed count fields
    have front := @Fields.ofMembers?_front ["key"]
      ["referencePaths", "params", "tags", "createdAt", "lastAccessedAt", "accessCount"] [none]
      (List.replicate 6 none) _ members rfl fields
    have alone : Fields.ofOutline? ["key"] (.object members) = some [some key] := front
    simp only [bind, Option.bind_eq_some_iff, pure, Option.some.injEq] at read
    obtain ⟨text, own, _, _, _, _, _, _, _, _, _, _, _, _, rfl⟩ := read
    rw [alone]
    exact own
  · cases read

end TieredCache
