import TieredCache.Json.Outline

/-!
# The tokens of an outline

An outline has just one list of tokens that it is read from: the one that `Outline.tokens` spells. What a state
has consumed is told by the state, so no token is lost on the way.
-/

namespace TieredCache.Json.Outline

/-! ## Spelling -/

mutual

/-- The tokens of an outline. -/
def tokens : Outline → List Token
  | .null => [.null]
  | .truth flag => [.truth flag]
  | .number numeral => [.number numeral]
  | .text pieces => [.text pieces]
  | .list [] => [.listOpen, .listClose]
  | .list (item :: items) => .listOpen :: (item.tokens ++ tokensOfItems items)
  | .object [] => [.objectOpen, .objectClose]
  | .object ((key, value) :: members) =>
    .objectOpen :: .text key :: .colon :: (value.tokens ++ tokensOfMembers members)

/-- The tokens of the further items of a list, to its end. -/
def tokensOfItems : List Outline → List Token
  | [] => [.listClose]
  | item :: items => .comma :: (item.tokens ++ tokensOfItems items)

/-- The tokens of the further members of an object, to its end. -/
def tokensOfMembers : List (List Piece × Outline) → List Token
  | [] => [.objectClose]
  | (key, value) :: members => .comma :: .text key :: .colon :: (value.tokens ++ tokensOfMembers members)

end

namespace State

theorem run?_cons {state next : State} {token : Token} (stepped : step? state token = some next)
    (more : List Token) : run? state (token :: more) = run? next more := by
  rw [run?, stepped, Option.bind_some]

theorem step?_listStart (frames : List Frame) {token : Token} (other : token ≠ .listClose) :
    step? (.listStart frames) token = begin? (.list [] :: frames) token := by
  cases token <;> first | rfl | exact absurd rfl other

/-- A list that has been opened may go on with any value. -/
theorem run?_listStart (frames : List Frame) (outline : Outline) (more : List Token) :
    run? (.listStart frames) (outline.tokens ++ more) =
      run? (.value (.list [] :: frames)) (outline.tokens ++ more) := by
  cases outline with
  | list items => cases items <;> rfl
  | object members => cases members <;> rfl
  | _ => rfl

mutual

/-- The tokens of an outline are read as the outline. -/
theorem run?_tokens (outline : Outline) (frames : List Frame) (more : List Token) :
    run? (.value frames) (outline.tokens ++ more) = run? (deliver outline frames) more := by
  cases outline with
  | null => rfl
  | truth flag => rfl
  | number numeral => rfl
  | text pieces => rfl
  | list items =>
      cases items with
      | nil => rfl
      | cons item items =>
          rw [tokens, List.cons_append, List.append_assoc, run?_cons rfl, run?_listStart, run?_tokens item]
          exact run?_tokensOfItems items [item] frames more
  | object members =>
      cases members with
      | nil => rfl
      | cons member members =>
          obtain ⟨key, value⟩ := member
          rw [tokens, List.cons_append, List.cons_append, List.cons_append, List.append_assoc, run?_cons rfl,
            run?_cons rfl, run?_cons rfl, run?_tokens value]
          exact run?_tokensOfMembers members [(key, value)] frames more

theorem run?_tokensOfItems (items before : List Outline) (frames : List Frame) (more : List Token) :
    run? (.listNext before frames) (tokensOfItems items ++ more) =
      run? (deliver (.list (before.reverse ++ items)) frames) more := by
  cases items with
  | nil =>
      rw [List.append_nil]
      rfl
  | cons item items =>
      rw [tokensOfItems, List.cons_append, List.append_assoc, run?_cons rfl, run?_tokens item]
      refine (run?_tokensOfItems items (item :: before) frames more).trans ?_
      rw [List.reverse_cons, List.append_assoc]
      rfl

theorem run?_tokensOfMembers (members before : List (List Piece × Outline)) (frames : List Frame)
    (more : List Token) : run? (.objectNext before frames) (tokensOfMembers members ++ more) =
      run? (deliver (.object (before.reverse ++ members)) frames) more := by
  cases members with
  | nil =>
      rw [List.append_nil]
      rfl
  | cons member members =>
      obtain ⟨key, value⟩ := member
      rw [tokensOfMembers, List.cons_append, List.cons_append, List.cons_append, List.append_assoc,
        run?_cons rfl, run?_cons rfl, run?_cons rfl, run?_tokens value]
      refine (run?_tokensOfMembers members ((key, value) :: before) frames more).trans ?_
      rw [List.reverse_cons, List.append_assoc]
      rfl

end

end State

/-! ## What has been consumed -/

/-- What stands before the next item or member: nothing before the first, and a comma otherwise. -/
def separator {α : Type} : List α → List Token
  | [] => []
  | _ :: _ => [.comma]

/-- The tokens of a list up to an item, the items given from that one back. -/
def listUpTo : List Outline → List Token
  | [] => [.listOpen]
  | item :: items => listUpTo items ++ separator items ++ item.tokens

/-- The tokens of an object up to a member, the members given from that one back. -/
def objectUpTo : List (List Piece × Outline) → List Token
  | [] => [.objectOpen]
  | (key, value) :: members =>
    objectUpTo members ++ separator members ++ .text key :: .colon :: value.tokens

/-- The tokens of open containers up to the value that is being read. -/
def spelled : List Frame → List Token
  | [] => []
  | .list items :: frames => spelled frames ++ (listUpTo items ++ separator items)
  | .object members key :: frames =>
    spelled frames ++ (objectUpTo members ++ separator members ++ [.text key, .colon])

theorem listUpTo_append (item : Outline) (items more : List Outline) :
    listUpTo (item :: items) ++ tokensOfItems more =
      (Outline.list ((item :: items).reverse ++ more)).tokens := by
  induction items generalizing item more with
  | nil =>
      simp only [listUpTo, separator, List.reverse_cons, List.reverse_nil, List.nil_append, List.append_nil,
        List.cons_append, tokens]
  | cons before items induction =>
      rw [listUpTo, List.reverse_cons, List.append_assoc _ [item], List.singleton_append, ← induction before,
        tokensOfItems, separator]
      simp only [List.append_assoc, List.nil_append, List.cons_append]

theorem objectUpTo_append (member : List Piece × Outline) (members more : List (List Piece × Outline)) :
    objectUpTo (member :: members) ++ tokensOfMembers more =
      (Outline.object ((member :: members).reverse ++ more)).tokens := by
  induction members generalizing member more with
  | nil =>
      simp only [objectUpTo, separator, List.reverse_cons, List.reverse_nil, List.nil_append, List.append_nil,
        List.cons_append, tokens]
  | cons before members induction =>
      rw [objectUpTo, List.reverse_cons, List.append_assoc _ [member], List.singleton_append,
        ← induction before, tokensOfMembers, separator]
      simp only [List.append_assoc, List.nil_append, List.cons_append]

namespace State

/-- The tokens that have been consumed in a state. -/
inductive Spells : State → List Token → Prop where
  | value (frames : List Frame) : Spells (.value frames) (spelled frames)
  | listStart (frames : List Frame) : Spells (.listStart frames) (spelled frames ++ [.listOpen])
  | listNext (item : Outline) (items : List Outline) (frames : List Frame) :
      Spells (.listNext (item :: items) frames) (spelled frames ++ listUpTo (item :: items))
  | objectStart (frames : List Frame) : Spells (.objectStart frames) (spelled frames ++ [.objectOpen])
  | objectKey (member : List Piece × Outline) (members : List (List Piece × Outline)) (frames : List Frame) :
      Spells (.objectKey (member :: members) frames)
        (spelled frames ++ objectUpTo (member :: members) ++ [.comma])
  | objectColon (members : List (List Piece × Outline)) (key : List Piece) (frames : List Frame) :
      Spells (.objectColon members key frames)
        (spelled frames ++ (objectUpTo members ++ separator members) ++ [.text key])
  | objectNext (member : List Piece × Outline) (members : List (List Piece × Outline)) (frames : List Frame) :
      Spells (.objectNext (member :: members) frames) (spelled frames ++ objectUpTo (member :: members))
  | finished (outline : Outline) : Spells (.finished outline) outline.tokens

variable {state next : State} {consumed : List Token} {token : Token}

theorem spells_deliver (outline : Outline) (frames : List Frame) :
    Spells (deliver outline frames) (spelled frames ++ outline.tokens) := by
  cases frames with
  | nil => exact .finished outline
  | cons frame frames =>
      cases frame with
      | list items =>
          rw [spelled, List.append_assoc, ← listUpTo]
          exact .listNext outline items frames
      | object members key =>
          have upTo : objectUpTo members ++ separator members ++ [.text key, .colon] ++ outline.tokens =
              objectUpTo ((key, outline) :: members) := by
            rw [objectUpTo, List.append_assoc _ [_, _]]
            rfl
          rw [spelled, List.append_assoc, upTo]
          exact .objectNext (key, outline) members frames

theorem spells_begin? {frames : List Frame} (begins : begin? frames token = some next) :
    Spells next (spelled frames ++ [token]) := by
  cases token with
  | null => cases begins; exact spells_deliver .null frames
  | truth flag => cases begins; exact spells_deliver (.truth flag) frames
  | number numeral => cases begins; exact spells_deliver (.number numeral) frames
  | text pieces => cases begins; exact spells_deliver (.text pieces) frames
  | listOpen => cases begins; exact .listStart frames
  | objectOpen => cases begins; exact .objectStart frames
  | _ => cases begins

/-- Every step consumes its token. -/
theorem Spells.step (spells : Spells state consumed) (stepped : step? state token = some next) :
    Spells next (consumed ++ [token]) := by
  cases spells with
  | value frames => exact spells_begin? stepped
  | listStart frames =>
      by_cases closing : token = .listClose
      · subst closing
        cases stepped
        rw [List.append_assoc]
        exact spells_deliver (.list []) frames
      · rw [step?_listStart frames closing] at stepped
        have begun := spells_begin? stepped
        rwa [spelled, listUpTo, separator, List.append_nil] at begun
  | listNext item items frames =>
      cases token with
      | comma =>
          cases stepped
          rw [List.append_assoc]
          exact .value (.list (item :: items) :: frames)
      | listClose =>
          cases stepped
          have closed := listUpTo_append item items []
          rw [List.append_nil] at closed
          rw [List.append_assoc, ← tokensOfItems, closed]
          exact spells_deliver _ frames
      | _ => cases stepped
  | objectStart frames =>
      cases token with
      | objectClose =>
          cases stepped
          rw [List.append_assoc]
          exact spells_deliver (.object []) frames
      | text key =>
          cases stepped
          exact .objectColon [] key frames
      | _ => cases stepped
  | objectKey member members frames =>
      cases token with
      | text key =>
          cases stepped
          rw [List.append_assoc (spelled frames)]
          exact .objectColon (member :: members) key frames
      | _ => cases stepped
  | objectColon members key frames =>
      cases token with
      | colon =>
          cases stepped
          rw [List.append_assoc, List.append_assoc]
          exact .value (.object members key :: frames)
      | _ => cases stepped
  | objectNext member members frames =>
      cases token with
      | comma =>
          cases stepped
          exact .objectKey member members frames
      | objectClose =>
          cases stepped
          have closed := objectUpTo_append member members []
          rw [List.append_nil] at closed
          rw [List.append_assoc, ← tokensOfMembers, closed]
          exact spells_deliver _ frames
      | _ => cases stepped
  | finished outline => cases stepped

theorem Spells.run {more : List Token} (spells : Spells state consumed) (runs : run? state more = some next) :
    Spells next (consumed ++ more) := by
  induction more generalizing state consumed with
  | nil =>
      cases runs
      rw [List.append_nil]
      exact spells
  | cons token more induction =>
      rw [run?] at runs
      obtain ⟨middle, stepped, runs⟩ := Option.bind_eq_some_iff.1 runs
      rw [List.append_cons]
      exact induction (spells.step stepped) runs

end State

/-- An outline is read from its tokens, and from no others. -/
theorem ofTokens?_eq_some_iff {consumed : List Token} {outline : Outline} :
    ofTokens? consumed = some outline ↔ consumed = outline.tokens := by
  rw [ofTokens?]
  constructor
  · intro read
    split at read
    · rename_i runs
      cases read
      cases (State.Spells.value []).run runs
      rfl
    · cases read
  · rintro rfl
    have runs := State.run?_tokens outline [] []
    rw [List.append_nil] at runs
    rw [runs]
    rfl

end TieredCache.Json.Outline
