import TieredCache.Proofs.Json.Tokens

/-!
# Passing over a value

To find the end of a value it is enough to know the kinds of the containers that are open. A reader that keeps
nothing else takes the same tokens as the one that builds an outline, and ends where that one ends.
-/

namespace TieredCache.Json

/-- A kind of container. -/
inductive Container where
  | list
  | object

/-- What may come next in a value that is passed over. The kinds are those of the containers around it, the
innermost first. -/
inductive Skip where
  /-- A value. -/
  | value (around : List Container)
  /-- The first item of a list, or its end. -/
  | listStart (around : List Container)
  /-- A comma, or the end of a list. -/
  | listNext (around : List Container)
  /-- The first key of an object, or its end. -/
  | objectStart (around : List Container)
  /-- A key. -/
  | objectKey (around : List Container)
  /-- The colon after a key. -/
  | objectColon (around : List Container)
  /-- A comma, or the end of an object. -/
  | objectNext (around : List Container)
  /-- Nothing. -/
  | finished

namespace Skip

/-- The state after a complete value. -/
def deliver : List Container → Skip
  | [] => .finished
  | .list :: around => .listNext around
  | .object :: around => .objectNext around

/-- The state after the first token of a value. -/
def begin? (around : List Container) : Token → Option Skip
  | .null | .truth _ | .number _ | .text _ => some (deliver around)
  | .listOpen => some (.listStart around)
  | .objectOpen => some (.objectStart around)
  | _ => none

/-- The state after one more token. -/
def step? : Skip → Token → Option Skip
  | .value around, token => begin? around token
  | .listStart around, .listClose => some (deliver around)
  | .listStart around, token => begin? (.list :: around) token
  | .listNext around, .comma => some (.value (.list :: around))
  | .listNext around, .listClose => some (deliver around)
  | .objectStart around, .objectClose => some (deliver around)
  | .objectStart around, .text _ => some (.objectColon around)
  | .objectKey around, .text _ => some (.objectColon around)
  | .objectColon around, .colon => some (.value (.object :: around))
  | .objectNext around, .comma => some (.objectKey around)
  | .objectNext around, .objectClose => some (deliver around)
  | _, _ => none

/-- The state after a list of tokens. -/
def run? : Skip → List Token → Option Skip
  | state, [] => some state
  | state, token :: tokens => (step? state token).bind fun next => run? next tokens

theorem step?_listStart (around : List Container) {token : Token} (other : token ≠ .listClose) :
    step? (.listStart around) token = begin? (.list :: around) token := by
  cases token <;> first | rfl | exact absurd rfl other

end Skip

namespace Outline

/-- The kind of an open container. -/
def Frame.container : Frame → Container
  | .list _ => .list
  | .object _ _ => .object

namespace State

/-- What is left of a state without the outlines. -/
def skip : State → Skip
  | .value frames => .value (frames.map Frame.container)
  | .listStart frames => .listStart (frames.map Frame.container)
  | .listNext _ frames => .listNext (frames.map Frame.container)
  | .objectStart frames => .objectStart (frames.map Frame.container)
  | .objectKey _ frames => .objectKey (frames.map Frame.container)
  | .objectColon _ _ frames => .objectColon (frames.map Frame.container)
  | .objectNext _ frames => .objectNext (frames.map Frame.container)
  | .finished _ => .finished

theorem skip_deliver (outline : Outline) (frames : List Frame) :
    (deliver outline frames).skip = Skip.deliver (frames.map Frame.container) := by
  cases frames with
  | nil => rfl
  | cons frame frames => cases frame <;> rfl

theorem skip_begin? (frames : List Frame) (token : Token) :
    (begin? frames token).map skip = Skip.begin? (frames.map Frame.container) token := by
  cases token with
  | null => exact congrArg some (skip_deliver .null frames)
  | truth flag => exact congrArg some (skip_deliver (.truth flag) frames)
  | number numeral => exact congrArg some (skip_deliver (.number numeral) frames)
  | text pieces => exact congrArg some (skip_deliver (.text pieces) frames)
  | _ => rfl

/-- A token is passed over in a state just when it is read there. -/
theorem skip_step? (state : State) (token : Token) :
    (step? state token).map skip = Skip.step? state.skip token := by
  cases state with
  | value frames => exact skip_begin? frames token
  | listStart frames =>
      by_cases closing : token = .listClose
      · subst closing
        exact congrArg some (skip_deliver (.list []) frames)
      · rw [step?_listStart frames closing, skip, Skip.step?_listStart _ closing]
        exact skip_begin? (.list [] :: frames) token
  | listNext items frames =>
      cases token with
      | listClose => exact congrArg some (skip_deliver (.list items.reverse) frames)
      | _ => rfl
  | objectStart frames =>
      cases token with
      | objectClose => exact congrArg some (skip_deliver (.object []) frames)
      | _ => rfl
  | objectKey members frames => cases token <;> rfl
  | objectColon members key frames => cases token <;> rfl
  | objectNext members frames =>
      cases token with
      | objectClose => exact congrArg some (skip_deliver (.object members.reverse) frames)
      | _ => rfl
  | finished outline => cases token <;> rfl

/-- Passing over tokens and reading them stop at the same token. -/
theorem skip_run? (state : State) (tokens : List Token) :
    (run? state tokens).map skip = Skip.run? state.skip tokens := by
  induction tokens generalizing state with
  | nil => rfl
  | cons token tokens induction =>
      rw [run?, Skip.run?, ← skip_step?]
      cases step? state token with
      | none => rfl
      | some next => exact induction next

end State

/-- The tokens that are passed over from the start of a value to its end are those of an outline. -/
theorem skip_finished_iff (consumed : List Token) :
    Skip.run? (.value []) consumed = some .finished ↔ ∃ outline : Outline, consumed = outline.tokens := by
  have erased : Skip.run? (.value []) consumed = (State.run? (.value []) consumed).map State.skip :=
    (State.skip_run? (.value []) consumed).symm
  rw [erased, Option.map_eq_some_iff]
  constructor
  · rintro ⟨state, runs, finished⟩
    cases state with
    | finished outline =>
        cases (State.Spells.value []).run runs
        exact ⟨outline, rfl⟩
    | _ => cases finished
  · rintro ⟨outline, rfl⟩
    have runs := State.run?_tokens outline [] []
    rw [List.append_nil] at runs
    exact ⟨_, runs, rfl⟩

end Outline

end TieredCache.Json
