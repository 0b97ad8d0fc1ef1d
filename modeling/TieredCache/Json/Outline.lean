import TieredCache.Json.Token

/-!
# Outlines

The outline of a JSON text is the tree of its tokens. It is built by one pass over the tokens with a
stack of open containers, so it may be nested to any depth. Every well-formed text has an outline,
also one whose numbers and strings have no value.
-/

namespace TieredCache.Json

/-- A tree of tokens. -/
inductive Outline where
  | null
  | truth (value : Bool)
  | number (numeral : Numeral)
  | text (pieces : List Piece)
  | list (items : List Outline)
  | object (members : List (List Piece × Outline))
  deriving Repr

namespace Outline

/-- An open container, with what it holds so far, the last first. -/
inductive Frame where
  | list (items : List Outline)
  /-- An object in which the value of a key is being read. -/
  | object (members : List (List Piece × Outline)) (key : List Piece)

/-- What may come next. The frames are those of the containers around it, the innermost first. -/
inductive State where
  /-- A value. -/
  | value (frames : List Frame)
  /-- The first item of a list, or its end. -/
  | listStart (frames : List Frame)
  /-- A comma, or the end of a list. -/
  | listNext (items : List Outline) (frames : List Frame)
  /-- The first key of an object, or its end. -/
  | objectStart (frames : List Frame)
  /-- A key. -/
  | objectKey (members : List (List Piece × Outline)) (frames : List Frame)
  /-- The colon after a key. -/
  | objectColon (members : List (List Piece × Outline)) (key : List Piece) (frames : List Frame)
  /-- A comma, or the end of an object. -/
  | objectNext (members : List (List Piece × Outline)) (frames : List Frame)
  /-- Nothing. -/
  | finished (outline : Outline)

namespace State

/-- The state after a complete value. -/
def deliver (outline : Outline) : List Frame → State
  | [] => .finished outline
  | .list items :: frames => .listNext (outline :: items) frames
  | .object members key :: frames => .objectNext ((key, outline) :: members) frames

/-- The state after the first token of a value. -/
def begin? (frames : List Frame) : Token → Option State
  | .null => some (deliver .null frames)
  | .truth flag => some (deliver (.truth flag) frames)
  | .number numeral => some (deliver (.number numeral) frames)
  | .text pieces => some (deliver (.text pieces) frames)
  | .listOpen => some (.listStart frames)
  | .objectOpen => some (.objectStart frames)
  | _ => none

/-- The state after one more token. -/
def step? : State → Token → Option State
  | .value frames, token => begin? frames token
  | .listStart frames, .listClose => some (deliver (.list []) frames)
  | .listStart frames, token => begin? (.list [] :: frames) token
  | .listNext items frames, .comma => some (.value (.list items :: frames))
  | .listNext items frames, .listClose => some (deliver (.list items.reverse) frames)
  | .objectStart frames, .objectClose => some (deliver (.object []) frames)
  | .objectStart frames, .text key => some (.objectColon [] key frames)
  | .objectKey members frames, .text key => some (.objectColon members key frames)
  | .objectColon members key frames, .colon => some (.value (.object members key :: frames))
  | .objectNext members frames, .comma => some (.objectKey members frames)
  | .objectNext members frames, .objectClose => some (deliver (.object members.reverse) frames)
  | _, _ => none

/-- The state after a list of tokens. -/
def run? : State → List Token → Option State
  | state, [] => some state
  | state, token :: tokens => (step? state token).bind fun next => run? next tokens

end State

/-- The outline of a list of tokens. -/
def ofTokens? (tokens : List Token) : Option Outline :=
  match State.run? (.value []) tokens with
  | some (.finished outline) => some outline
  | _ => none

/-- The outline of a text. -/
def read? (text : Bytes) : Option Outline := (Token.readAll text).bind ofTokens?

/-! ## Depth -/

mutual

/-- How many containers stand around the innermost one, it included. -/
def depth : Outline → Nat
  | .list items => depthOfItems items + 1
  | .object members => depthOfMembers members + 1
  | _ => 0

/-- The greatest depth among items. -/
def depthOfItems : List Outline → Nat
  | [] => 0
  | item :: items => max item.depth (depthOfItems items)

/-- The greatest depth among the values of members. -/
def depthOfMembers : List (List Piece × Outline) → Nat
  | [] => 0
  | (_, value) :: members => max value.depth (depthOfMembers members)

end

end Outline

end TieredCache.Json
