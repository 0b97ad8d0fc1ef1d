import TieredCache.Entry.Record
import TieredCache.Proofs.Json.Skipping

/-!
# Skimming a record

The key of a record can be found in one pass over its tokens that builds no outline: a member of another name is
passed over, whatever its value. The key found is the one that is read from the outline.
-/

namespace TieredCache.Json

/-- What may come next in an object from which the string under one name is wanted. What has been found of it
is kept. -/
inductive Skim where
  /-- The start of the object. -/
  | start
  /-- The first name, or the end of the object. -/
  | first
  /-- A name. -/
  | key (found : Option String)
  /-- The colon after a name. -/
  | colon (name : String) (found : Option String)
  /-- The string that is wanted. -/
  | wanted
  /-- More of a value that is passed over. -/
  | within (value : Skip) (found : Option String)
  /-- A comma, or the end of the object. -/
  | next (found : Option String)
  /-- Nothing. -/
  | over (found : Option String)

namespace Skim

/-- The state after one more token of a value that is passed over. -/
def pass (found : Option String) : Skip → Skim
  | .finished => .next found
  | value => .within value found

/-- The state after the colon of a member. A name may come once if its string is wanted. -/
def enter? (own name : String) (found : Option String) : Option Skim :=
  if name = own then (if found.isNone then some .wanted else none) else some (.within (.value []) found)

/-- The state after one more token. -/
def step? (own : String) : Skim → Token → Option Skim
  | .start, .objectOpen => some .first
  | .first, .text pieces => (Quoted.text? pieces).map fun name => .colon name none
  | .first, .objectClose => some (.over none)
  | .key found, .text pieces => (Quoted.text? pieces).map fun name => .colon name found
  | .colon name found, .colon => enter? own name found
  | .wanted, .text pieces => (Quoted.text? pieces).map fun text => .next (some text)
  | .within value found, token => (Skip.step? value token).map (pass found)
  | .next found, .comma => some (.key found)
  | .next found, .objectClose => some (.over found)
  | _, _ => none

/-- The state after a list of tokens. -/
def run? (own : String) : Skim → List Token → Option Skim
  | state, [] => some state
  | state, token :: tokens => (step? own state token).bind fun next => run? own next tokens

/-- What has been found when the object has ended. -/
def result? : Skim → Option String
  | .over found => found
  | _ => none

variable {own : String} {found : Option String} {value : Skip} {before : List Token}

/-- A value that has been passed over leaves what had been found. -/
theorem run?_within (unfinished : value ≠ .finished) (passed : Skip.run? value before = some .finished)
    (after : List Token) :
    run? own (.within value found) (before ++ after) = run? own (.next found) after := by
  induction before generalizing value with
  | nil => exact absurd (Option.some.inj passed) unfinished
  | cons token before induction =>
      obtain ⟨middle, stepped, rest⟩ := Option.bind_eq_some_iff.1 passed
      rw [List.cons_append, run?, step?, stepped, Option.map_some, Option.bind_some]
      by_cases ends : middle = .finished
      · subst ends
        cases before with
        | nil => rfl
        | cons token before => cases rest
      · have goes_on : pass found middle = .within middle found := by
          cases middle <;> first | rfl | exact absurd rfl ends
        rw [goes_on]
        exact induction ends rest

/-- Where a string is wanted, no other value goes on. -/
theorem run?_wanted (value : Outline) (after : List Token) :
    run? own .wanted (value.tokens ++ after) =
      value.string?.bind fun text => run? own (.next (some text)) after := by
  cases value with
  | text pieces =>
      rw [Outline.tokens, List.singleton_append, run?, step?, Outline.string?]
      cases Quoted.text? pieces <;> rfl
  | list items => cases items <;> rfl
  | object members => cases members <;> rfl
  | _ => rfl

/-- What has been found after one more member. -/
def take? (own : String) (found : Option String) (member : List Piece × Outline) : Option (Option String) :=
  (Quoted.text? member.1).bind fun name =>
    if name = own then (if found.isNone then member.2.string?.map some else none) else some found

/-- A member takes its own tokens. -/
theorem run?_key (member : List Piece × Outline) (after : List Token) :
    run? own (.key found) (.text member.1 :: .colon :: (member.2.tokens ++ after)) =
      (take? own found member).bind fun found => run? own (.next found) after := by
  rw [run?, step?, take?]
  cases Quoted.text? member.1 with
  | none => rfl
  | some name =>
      rw [Option.map_some, Option.bind_some, Option.bind_some, run?, step?, enter?]
      by_cases same : name = own
      · rw [if_pos same, if_pos same]
        cases found with
        | none =>
            refine (run?_wanted member.2 after).trans ?_
            cases member.2.string? <;> rfl
        | some held => rfl
      · rw [if_neg same, if_neg same]
        exact run?_within Skip.noConfusion ((Outline.skip_finished_iff _).2 ⟨member.2, rfl⟩) after

/-- The members of an object are taken up in their order. -/
theorem run?_members (members : List (List Piece × Outline)) (found : Option String) :
    run? own (.next found) (Outline.tokensOfMembers members) =
      (members.foldlM (take? own) found).map .over := by
  induction members generalizing found with
  | nil => rfl
  | cons member members induction =>
      have named : run? own (.next found) (Outline.tokensOfMembers (member :: members)) =
          run? own (.key found)
            (.text member.1 :: .colon :: (member.2.tokens ++ Outline.tokensOfMembers members)) := rfl
      rw [named, run?_key, List.foldlM_cons]
      cases take? own found member with
      | none => rfl
      | some found => exact induction found

theorem run?_object (members : List (List Piece × Outline)) :
    run? own .start (Outline.object members).tokens = (members.foldlM (take? own) none).map .over := by
  cases members with
  | nil => rfl
  | cons member members =>
      have named : run? own .start (Outline.object (member :: members)).tokens =
          run? own (.key none)
            (.text member.1 :: .colon :: (member.2.tokens ++ Outline.tokensOfMembers members)) := rfl
      have others : run? own (.next none) (Outline.tokensOfMembers (member :: members)) =
          run? own (.key none)
            (.text member.1 :: .colon :: (member.2.tokens ++ Outline.tokensOfMembers members)) := rfl
      rw [named, ← others]
      exact run?_members (member :: members) none

end Skim

/-! ## The one field -/

namespace Fields

/-- The string of the only field. -/
def string? : Fields → Option String
  | [some field] => field.string?
  | _ => none

variable {own : String}

/-- A field that is held stays as it is. -/
theorem ofMembers?_held {field : Outline} {fields : Fields} {members : List (List Piece × Outline)}
    (read : ofMembers? [own] members [some field] = some fields) : fields = [some field] := by
  induction members with
  | nil => exact (Option.some.inj read).symm
  | cons member members induction =>
      obtain ⟨pieces, value⟩ := member
      rw [ofMembers?] at read
      cases text : Quoted.text? pieces with
      | none =>
          rw [text] at read
          cases read
      | some name =>
          rw [text] at read
          obtain ⟨middle, set, rest⟩ := Option.bind_eq_some_iff.1 read
          rw [set?] at set
          split at set
          · cases set
          · cases set
            exact induction rest

/-- A field that is held and is no string leaves none to be found. -/
theorem bind_string?_held {field : Outline} {members : List (List Piece × Outline)}
    (no_text : field.string? = none) : (ofMembers? [own] members [some field]).bind string? = none := by
  cases read : ofMembers? [own] members [some field] with
  | none => rfl
  | some fields =>
      rw [ofMembers?_held read]
      exact no_text

/-- The string found is that of the field held. -/
inductive Found : Option Outline → Option String → Prop where
  | nothing : Found none none
  | string {field : Outline} {text : String} (is_text : field.string? = some text) :
      Found (some field) (some text)

/-- Taking up strings gives the string of the field that is taken up. -/
theorem foldlM_take? (members : List (List Piece × Outline)) {held : Option Outline} {found : Option String}
    (same : Found held found) :
    (members.foldlM (Skim.take? own) found).join = (ofMembers? [own] members [held]).bind string? := by
  induction members generalizing held found with
  | nil =>
      cases same with
      | nothing => rfl
      | string is_text => exact is_text.symm
  | cons member members induction =>
      obtain ⟨pieces, value⟩ := member
      rw [List.foldlM_cons, Skim.take?, ofMembers?]
      cases Quoted.text? pieces with
      | none => rfl
      | some name =>
          rw [Option.bind_some]
          by_cases wanted : name = own
          · cases same with
            | string is_text =>
                simp only [set?, if_pos wanted]
                rfl
            | nothing =>
                simp only [set?, if_pos wanted]
                cases is_text : value.string? with
                | none => exact (bind_string?_held is_text).symm
                | some text => exact induction (.string is_text)
          · simp only [set?, if_neg wanted]
            exact induction same

end Fields

end TieredCache.Json

namespace TieredCache

open Json

theorem embeddedKey?_eq (bytes : Bytes) : embeddedKey? bytes =
    ((Outline.read? bytes).bind (Fields.ofOutline? ["key"])).bind Fields.string? := by
  rw [embeddedKey?]
  cases (Outline.read? bytes).bind (Fields.ofOutline? ["key"]) with
  | none => rfl
  | some fields => rcases fields with _ | ⟨_ | field, _ | ⟨other, fields⟩⟩ <;> rfl

/-- The key of a record, found in one pass over its tokens. -/
def skimmedKey? (bytes : Bytes) : Option String :=
  (Token.readAll bytes).bind fun tokens => (Skim.run? "key" .start tokens).bind Skim.result?

/-- The key of a record that is an object is found by skimming it. -/
theorem skimmedKey?_eq {bytes : Bytes} {members : List (List Piece × Outline)}
    (object : Outline.read? bytes = some (.object members)) : skimmedKey? bytes = embeddedKey? bytes := by
  obtain ⟨tokens, lexed, outlined⟩ := Option.bind_eq_some_iff.1 object
  obtain rfl := Outline.ofTokens?_eq_some_iff.1 outlined
  have found := @Fields.foldlM_take? "key" members none none .nothing
  rw [embeddedKey?_eq, object, skimmedKey?, lexed, Option.bind_some, Skim.run?_object]
  refine Eq.trans ?_ found
  cases members.foldlM (Skim.take? "key") none <;> rfl

end TieredCache
