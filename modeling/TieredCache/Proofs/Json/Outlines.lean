import TieredCache.Proofs.Json.Written

/-!
# Outlines of written values

The outline of a written value can be computed from the value. Its text is read as this outline inside
any open containers, and before any text that ends a number.
-/

namespace TieredCache.Json

/-! ## First bytes -/

/-- A byte that can begin a value: it is no blank and ends no list. -/
def Opens (byte : UInt8) : Prop := Ascii.isBlank byte = false ∧ Ascii.is byte ']' = false

theorem is_of_isDigit {byte : UInt8} (digit : Ascii.isDigit byte = true) {character : Char}
    (other : Ascii.isDigit character.toUInt8 = false) : Ascii.is byte character = false := by
  cases same : Ascii.is byte character with
  | false => rfl
  | true =>
      have equal : byte = character.toUInt8 := by simpa [Ascii.is] using same
      rw [equal, other] at digit
      cases digit

/-- A byte that can begin a number, and nothing else. -/
def OpensNumber (byte : UInt8) : Prop :=
  Ascii.isDigit byte = true ∨ byte = '-'.toUInt8

theorem OpensNumber.is_eq_false {byte : UInt8} (opens : OpensNumber byte) {character : Char}
    (no_digit : Ascii.isDigit character.toUInt8 = false) (no_minus : character.toUInt8 ≠ '-'.toUInt8) :
    Ascii.is byte character = false := by
  rcases opens with digit | rfl
  · exact is_of_isDigit digit no_digit
  · simpa [Ascii.is] using no_minus.symm

theorem OpensNumber.opens {byte : UInt8} (opens : OpensNumber byte) : Opens byte := by
  refine ⟨?_, opens.is_eq_false (by decide) (by decide)⟩
  simp only [Ascii.isBlank, Bool.or_eq_false_iff]
  refine ⟨⟨⟨?_, ?_⟩, ?_⟩, ?_⟩ <;> exact opens.is_eq_false (by decide) (by decide)

theorem Token.read?_opensNumber {byte : UInt8} (opens : OpensNumber byte) (text : Bytes) :
    Token.read? (byte :: text) =
      (Numeral.read? (byte :: text)).map fun found => (.number found.1, found.2) := by
  have no_mark : Token.mark? byte = none := by
    unfold Token.mark?
    repeat rw [if_neg (by rw [opens.is_eq_false (by decide) (by decide)]; decide)]
  rw [Token.read?, no_mark]
  simp only
  repeat rw [if_neg (by rw [opens.is_eq_false (by decide) (by decide)]; decide)]

/-- A token ends a list only if its byte does. -/
theorem Token.ne_listClose {byte : UInt8} {text rest : Bytes} {token : Token}
    (other : Ascii.is byte ']' = false) (read : Token.read? (byte :: text) = some (token, rest)) :
    token ≠ .listClose := by
  rintro rfl
  rw [Token.read?] at read
  split at read
  · rename_i mark
    simp only [Option.some.injEq, Prod.mk.injEq] at read
    rw [read.1, Token.mark?] at mark
    simp only [other, Bool.false_eq_true, if_false] at mark
    repeat
      split at mark
      · cases mark
    cases mark
  · repeat
      split at read
      · obtain ⟨_, _, same⟩ := Option.map_eq_some_iff.1 read
        cases same
    obtain ⟨_, _, same⟩ := Option.map_eq_some_iff.1 read
    cases same

theorem Number.exists_opensNumber (number : Number) :
    ∃ byte rest, number.write = byte :: rest ∧ OpensNumber byte := by
  have proper := number.proper_numeral.whole
  obtain ⟨digit, others, whole⟩ := List.exists_cons_of_ne_nil proper.1
  have is_digit := proper.2 digit (by rw [whole]; exact List.mem_cons_self)
  rw [Number.write_eq, Numeral.chars, whole]
  cases number.numeral.negative with
  | true => exact ⟨_, _, rfl, Or.inr rfl⟩
  | false => exact ⟨_, _, rfl, Or.inl (Ascii.isDigit_toUInt8 is_digit).1⟩

/-- Every written value begins with a byte that can begin a value. -/
theorem Value.exists_opens (value : Value) :
    ∃ byte rest, value.write = byte :: rest ∧ Opens byte := by
  cases value with
  | null => exact ⟨_, _, rfl, rfl, rfl⟩
  | truth flag => cases flag <;> exact ⟨_, _, rfl, rfl, rfl⟩
  | number number =>
      obtain ⟨byte, rest, written, opens⟩ := number.exists_opensNumber
      exact ⟨byte, rest, written, opens.opens⟩
  | text string => exact ⟨_, _, rfl, rfl, rfl⟩
  | list items => cases items <;> exact ⟨_, _, rfl, rfl, rfl⟩
  | object members => cases members <;> exact ⟨_, _, rfl, rfl, rfl⟩

/-! ## Reading a text from a state -/

namespace Outline.State

/-- The state after a text. -/
def read? (state : State) (text : Bytes) : Option State := (Token.readAll text).bind state.run?

theorem read?_token {byte : UInt8} {text rest : Bytes} {token : Token} (state : State)
    (black : Ascii.isBlank byte = false) (read : Token.read? (byte :: text) = some (token, rest)) :
    state.read? (byte :: text) = (state.step? token).bind fun next => next.read? rest := by
  rw [State.read?, Token.readAll_token black read]
  cases later : Token.readAll rest with
  | none => cases state.step? token <;> simp [State.read?, later]
  | some tokens => simp [State.read?, later, run?]

/-- A list that has begun goes on with its first value. -/
theorem read?_listStart {byte : UInt8} (opens : Opens byte) (text : Bytes) (frames : List Frame) :
    (State.listStart frames).read? (byte :: text) =
      (State.value (.list [] :: frames)).read? (byte :: text) := by
  cases read : Token.read? (byte :: text) with
  | none =>
      have nothing : Token.readAll (byte :: text) = none := by
        rw [Token.readAll, List.length_cons, Token.readFrom, if_neg (by simp [opens.1]), read]
      rw [State.read?, State.read?, nothing]
      rfl
  | some found =>
      obtain ⟨token, rest⟩ := found
      have other := Token.ne_listClose opens.2 read
      rw [read?_token _ opens.1 read, read?_token _ opens.1 read]
      congr 1
      cases token <;> first | rfl | exact absurd rfl other

end Outline.State

/-! ## Outlines -/

namespace Value

mutual

/-- The outline that the text of a value has. -/
def outline : Value → Outline
  | .null => .null
  | .truth flag => .truth flag
  | .number amount => .number amount.numeral
  | .text string => .text (Quoted.pieces string)
  | .list items => .list (outlines items)
  | .object members => .object (outlineMembers members)

/-- The outlines of items. -/
def outlines : List Value → List Outline
  | [] => []
  | item :: items => item.outline :: outlines items

/-- The outlines of members. -/
def outlineMembers : List (String × Value) → List (List Piece × Outline)
  | [] => []
  | (key, value) :: members => (Quoted.pieces key, value.outline) :: outlineMembers members

end

theorem stops_writeItems (items : List Value) (more : Bytes) :
    Numeral.Stops (writeItems items ++ more) := by
  cases items <;> exact Numeral.stops_cons.2 ⟨rfl, rfl, rfl, rfl⟩

theorem stops_writeMembers (members : List (String × Value)) (more : Bytes) :
    Numeral.Stops (writeMembers members ++ more) := by
  cases members <;> exact Numeral.stops_cons.2 ⟨rfl, rfl, rfl, rfl⟩

end Value

namespace Outline.State

theorem read?_step {state next : State} {byte : UInt8} {text rest : Bytes} {token : Token}
    (black : Ascii.isBlank byte = false) (read : Token.read? (byte :: text) = some (token, rest))
    (step : state.step? token = some next) : state.read? (byte :: text) = next.read? rest := by
  rw [read?_token state black read, step]
  rfl

theorem read?_mark (state : State) (byte : UInt8) (text : Bytes) {token : Token} {next : State}
    (black : Ascii.isBlank byte = false) (mark : Token.mark? byte = some token)
    (step : state.step? token = some next) :
    state.read? (byte :: text) = next.read? text := by
  refine read?_step black ?_ step
  rw [Token.read?, mark]

theorem read?_text (state : State) (string : String) (more : Bytes) {next : State}
    (step : state.step? (.text (Quoted.pieces string)) = some next) :
    state.read? (Quoted.write string ++ more) = next.read? more := by
  have found := Quoted.read?_flatMap_escape (Utf8.encode string) more
  have quoted : Token.read? ('"'.toUInt8 ::
      ((Utf8.encode string).flatMap Quoted.escape ++ '"'.toUInt8 :: more)) =
        some (.text (Quoted.pieces string), more) := by
    have no_mark : Token.mark? '"'.toUInt8 = none := by decide
    have quote : Ascii.is '"'.toUInt8 '"' = true := by decide
    rw [Token.read?, no_mark]
    simp only [quote, if_true, found, Option.map_some]
    rfl
  have spelled : Quoted.write string ++ more =
      '"'.toUInt8 :: ((Utf8.encode string).flatMap Quoted.escape ++ '"'.toUInt8 :: more) := by
    simp [Quoted.write]
  rw [spelled]
  exact read?_step rfl quoted step

mutual

/-- A written value takes a state to the one after its outline. -/
theorem read?_write :
    ∀ (item : Value) (frames : List Frame) {more : Bytes}, Numeral.Stops more →
      (State.value frames).read? (item.write ++ more) =
        (deliver item.outline frames).read? more
  | .null, frames, more, _ => by
      have word : Token.read? ('n'.toUInt8 :: (Ascii.bytes ['u', 'l', 'l'] ++ more)) =
          some (.null, more) := rfl
      exact read?_step rfl word rfl
  | .truth true, frames, more, _ => by
      have word : Token.read? ('t'.toUInt8 :: (Ascii.bytes ['r', 'u', 'e'] ++ more)) =
          some (.truth true, more) := rfl
      exact read?_step rfl word rfl
  | .truth false, frames, more, _ => by
      have word : Token.read? ('f'.toUInt8 :: (Ascii.bytes ['a', 'l', 's', 'e'] ++ more)) =
          some (.truth false, more) := rfl
      exact read?_step rfl word rfl
  | .number amount, frames, more, stops => by
      have read := amount.read?_write stops
      obtain ⟨byte, rest, written, opens⟩ := amount.exists_opensNumber
      rw [Value.write]
      rw [written, List.cons_append] at read ⊢
      have token : Token.read? (byte :: (rest ++ more)) = some (.number amount.numeral, more) := by
        rw [Token.read?_opensNumber opens, read]
        rfl
      exact read?_step opens.opens.1 token rfl
  | .text string, frames, more, _ => read?_text _ string more rfl
  | .list [], frames, more, _ => by
      have opened := read?_mark (.value frames) '['.toUInt8 (']'.toUInt8 :: more) rfl rfl rfl
      have closed := read?_mark (.listStart frames) ']'.toUInt8 more rfl rfl rfl
      exact opened.trans closed
  | .list (item :: items), frames, more, stops => by
      have opened := read?_mark (.value frames) '['.toUInt8
        (item.write ++ (Value.writeItems items ++ more)) rfl rfl rfl
      obtain ⟨byte, rest, written, opens⟩ := item.exists_opens
      have begun : (State.listStart frames).read? (item.write ++ (Value.writeItems items ++ more)) =
          (State.value (.list [] :: frames)).read?
            (item.write ++ (Value.writeItems items ++ more)) := by
        rw [written, List.cons_append]
        exact read?_listStart opens _ frames
      have first := read?_write item (.list [] :: frames) (Value.stops_writeItems items more)
      have others := read?_writeItems items [item.outline] frames stops
      rw [Value.write, List.cons_append, List.append_assoc]
      exact opened.trans (begun.trans (first.trans others))
  | .object [], frames, more, _ => by
      have opened := read?_mark (.value frames) '{'.toUInt8 ('}'.toUInt8 :: more) rfl rfl rfl
      have closed := read?_mark (.objectStart frames) '}'.toUInt8 more rfl rfl rfl
      exact opened.trans closed
  | .object ((key, item) :: members), frames, more, stops => by
      have opened := read?_mark (.value frames) '{'.toUInt8
        (Quoted.write key ++ ':'.toUInt8 :: (item.write ++ (Value.writeMembers members ++ more)))
        rfl rfl rfl
      have named := read?_text (.objectStart frames) key
        (':'.toUInt8 :: (item.write ++ (Value.writeMembers members ++ more))) rfl
      have colon := read?_mark (.objectColon [] (Quoted.pieces key) frames) ':'.toUInt8
        (item.write ++ (Value.writeMembers members ++ more)) rfl rfl rfl
      have first := read?_write item (.object [] (Quoted.pieces key) :: frames)
        (Value.stops_writeMembers members more)
      have others := read?_writeMembers members [(Quoted.pieces key, item.outline)] frames stops
      rw [Value.write]
      simp only [List.cons_append, List.append_assoc]
      exact opened.trans (named.trans (colon.trans (first.trans others)))

/-- The written items of a list end it, together with those that were read before. -/
theorem read?_writeItems :
    ∀ (items : List Value) (held : List Outline) (frames : List Frame) {more : Bytes},
      Numeral.Stops more →
        (State.listNext held frames).read? (Value.writeItems items ++ more) =
          (deliver (.list (held.reverse ++ Value.outlines items)) frames).read? more
  | [], held, frames, more, _ => by
      rw [Value.outlines, List.append_nil]
      exact read?_mark _ ']'.toUInt8 more rfl rfl rfl
  | item :: items, held, frames, more, stops => by
      have comma := read?_mark (.listNext held frames) ','.toUInt8
        (item.write ++ (Value.writeItems items ++ more)) rfl rfl rfl
      have first := read?_write item (.list held :: frames) (Value.stops_writeItems items more)
      have others := read?_writeItems items (item.outline :: held) frames stops
      rw [List.reverse_cons, List.append_assoc] at others
      rw [Value.writeItems, List.cons_append, List.append_assoc]
      exact comma.trans (first.trans others)

/-- The written members of an object end it, together with those that were read before. -/
theorem read?_writeMembers :
    ∀ (members : List (String × Value)) (held : List (List Piece × Outline)) (frames : List Frame)
      {more : Bytes}, Numeral.Stops more →
        (State.objectNext held frames).read? (Value.writeMembers members ++ more) =
          (deliver (.object (held.reverse ++ Value.outlineMembers members)) frames).read? more
  | [], held, frames, more, _ => by
      rw [Value.outlineMembers, List.append_nil]
      exact read?_mark _ '}'.toUInt8 more rfl rfl rfl
  | (key, item) :: members, held, frames, more, stops => by
      have comma := read?_mark (.objectNext held frames) ','.toUInt8
        (Quoted.write key ++ ':'.toUInt8 :: (item.write ++ (Value.writeMembers members ++ more)))
        rfl rfl rfl
      have named := read?_text (.objectKey held frames) key
        (':'.toUInt8 :: (item.write ++ (Value.writeMembers members ++ more))) rfl
      have colon := read?_mark (.objectColon held (Quoted.pieces key) frames) ':'.toUInt8
        (item.write ++ (Value.writeMembers members ++ more)) rfl rfl rfl
      have first := read?_write item (.object held (Quoted.pieces key) :: frames)
        (Value.stops_writeMembers members more)
      have others := read?_writeMembers members ((Quoted.pieces key, item.outline) :: held) frames
        stops
      rw [List.reverse_cons, List.append_assoc] at others
      rw [Value.writeMembers]
      simp only [List.cons_append, List.append_assoc]
      exact comma.trans (named.trans (colon.trans (first.trans others)))

end

end Outline.State

theorem Outline.read?_eq (text : Bytes) :
    Outline.read? text =
      match (State.value []).read? text with
      | some (.finished outline) => some outline
      | _ => none := by
  unfold Outline.read? State.read?
  cases Token.readAll text with
  | none => rfl
  | some tokens => rfl

/-- The text of a value has the outline of the value. -/
theorem Value.read?_write (value : Value) : Outline.read? value.write = some value.outline := by
  have read := Outline.State.read?_write value [] Numeral.stops_nil
  rw [List.append_nil] at read
  rw [Outline.read?_eq, read]
  rfl

end TieredCache.Json
