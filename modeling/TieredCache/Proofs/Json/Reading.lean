import TieredCache.Json.Outline

/-!
# Reading goes on

Every token takes at least one byte. The fuel of the reader is therefore enough, and its list of
tokens can be taken apart one token at a time.
-/

namespace TieredCache.Json

/-! ## Numbers -/

namespace Numeral

/-- A text with which no number can go on. -/
def Stops (text : Bytes) : Prop :=
  ∀ byte ∈ text.head?, (Ascii.isDigit byte || Ascii.is byte '.' || Ascii.is byte 'e' ||
    Ascii.is byte 'E') = false

theorem stops_nil : Stops [] := by
  intro byte found
  cases found

theorem stops_cons {byte : UInt8} {rest : Bytes} : Stops (byte :: rest) ↔
    Ascii.isDigit byte = false ∧ Ascii.is byte '.' = false ∧ Ascii.is byte 'e' = false ∧
      Ascii.is byte 'E' = false := by
  simp [Stops, and_assoc]

theorem Stops.not_digit {text : Bytes} (stops : Stops text) :
    ∀ byte ∈ text.head?, Ascii.isDigit byte = false ∧ Ascii.is byte '.' = false := by
  intro byte first
  have ends := stops byte first
  simp only [Bool.or_eq_false_iff] at ends
  exact ends.1.1

theorem length_digits (text : Bytes) :
    (digits text).1.length + (digits text).2.length = text.length := by
  induction text with
  | nil => rfl
  | cons byte text induction =>
      rw [digits]
      split
      · simp only [List.length_cons]
        omega
      · simp

theorem someDigits?_eq_some {text rest : Bytes} {found : List Char} :
    someDigits? text = some (found, rest) ↔ digits text = (found, rest) ∧ found ≠ [] := by
  rw [someDigits?]
  split
  · rename_i nothing
    simp only [nothing, Prod.mk.injEq, reduceCtorEq, false_iff, not_and]
    rintro ⟨rfl, _⟩ nonempty
    exact absurd rfl nonempty
  · rename_i others
    simp only [Option.some.injEq, iff_self_and]
    rintro read rfl
    exact others rest read

theorem whole?_eq_some {text rest : Bytes} {found : List Char} :
    whole? text = some (found, rest) ↔
      digits text = (found, rest) ∧ found ≠ [] ∧ ∀ digit others, found ≠ '0' :: digit :: others := by
  rw [whole?]
  split
  · rename_i nothing
    simp only [nothing, Prod.mk.injEq, reduceCtorEq, false_iff, not_and]
    rintro ⟨rfl, _⟩ nonempty
    exact absurd rfl nonempty
  · rename_i zero
    simp only [zero, reduceCtorEq, Prod.mk.injEq, false_iff, not_and]
    rintro ⟨rfl, rfl⟩ _ leading
    exact leading _ _ rfl
  · rename_i nonempty leading
    simp only [Option.some.injEq, iff_self_and]
    intro read
    constructor
    · rintro rfl
      exact nonempty rest read
    · rintro digit others rfl
      exact leading digit others rest read

theorem exponent?_cons (byte : UInt8) (text : Bytes) :
    exponent? (byte :: text) =
      if Ascii.is byte 'e' || Ascii.is byte 'E' then
        (someDigits? (exponentSign text).2).map fun found =>
          (some ((exponentSign text).1, found.1), found.2)
      else some (none, byte :: text) := rfl

/-- The parts of a number that was read. -/
theorem read?_eq_some {text rest : Bytes} {numeral : Numeral} :
    read? text = some (numeral, rest) ↔
      ∃ afterWhole afterFraction,
        (sign text).1 = numeral.negative ∧
        whole? (sign text).2 = some (numeral.whole, afterWhole) ∧
        fraction? afterWhole = some (numeral.fraction, afterFraction) ∧
        exponent? afterFraction = some (numeral.exponent, rest) := by
  obtain ⟨negative, whole, fraction, exponent⟩ := numeral
  simp only [read?, Option.bind_eq_bind, Option.bind_eq_some_iff, Prod.exists, Option.pure_def,
    Option.some.injEq, Prod.mk.injEq, Numeral.mk.injEq]
  constructor
  · rintro ⟨_, afterWhole, whole_eq, _, afterFraction, fraction_eq, _, _, exponent_eq,
      ⟨rfl, rfl, rfl, rfl⟩, rfl⟩
    exact ⟨afterWhole, afterFraction, rfl, whole_eq, fraction_eq, exponent_eq⟩
  · rintro ⟨afterWhole, afterFraction, rfl, whole_eq, fraction_eq, exponent_eq⟩
    exact ⟨_, afterWhole, whole_eq, _, afterFraction, fraction_eq, _, _, exponent_eq,
      ⟨rfl, rfl, rfl, rfl⟩, rfl⟩

theorem length_someDigits? {text rest : Bytes} {found : List Char}
    (read : someDigits? text = some (found, rest)) : rest.length < text.length := by
  obtain ⟨digits_eq, nonempty⟩ := someDigits?_eq_some.1 read
  have lengths := length_digits text
  rw [digits_eq] at lengths
  have positive := List.length_pos_iff.2 nonempty
  simp only at lengths
  omega

theorem length_exponent? {text rest : Bytes} {found : Option (Bool × List Char)}
    (read : exponent? text = some (found, rest)) : rest.length ≤ text.length := by
  cases text with
  | nil =>
      simp only [exponent?, Option.some.injEq, Prod.mk.injEq] at read
      simp [← read.2]
  | cons byte text =>
      rw [exponent?_cons] at read
      split at read
      · obtain ⟨⟨digits, after⟩, later, same⟩ := Option.map_eq_some_iff.1 read
        simp only [Prod.mk.injEq] at same
        obtain ⟨_, rfl⟩ := same
        have shorter := length_someDigits? later
        have sign_shorter : (exponentSign text).2.length ≤ text.length := by
          unfold exponentSign
          split
          · simp
          · split
            · simp
            · split <;> simp
        simp only [List.length_cons]
        omega
      · simp only [Option.some.injEq, Prod.mk.injEq] at read
        simp [← read.2]

theorem length_fraction? {text rest : Bytes} {found : Option (List Char)}
    (read : fraction? text = some (found, rest)) : rest.length ≤ text.length := by
  cases text with
  | nil =>
      simp only [fraction?, Option.some.injEq, Prod.mk.injEq] at read
      simp [← read.2]
  | cons byte text =>
      rw [fraction?] at read
      split at read
      · obtain ⟨⟨digits, after⟩, later, same⟩ := Option.map_eq_some_iff.1 read
        simp only [Prod.mk.injEq] at same
        obtain ⟨_, rfl⟩ := same
        have shorter := length_someDigits? later
        simp only [List.length_cons]
        omega
      · simp only [Option.some.injEq, Prod.mk.injEq] at read
        simp [← read.2]

/-- A number takes at least one byte. -/
theorem length_read? {text rest : Bytes} {numeral : Numeral}
    (read : read? text = some (numeral, rest)) : rest.length < text.length := by
  obtain ⟨afterWhole, afterFraction, _, whole_eq, fraction_eq, exponent_eq⟩ :=
    read?_eq_some.1 read
  have sign_shorter : (sign text).2.length ≤ text.length := by
    unfold sign
    split
    · simp
    · split <;> simp
  obtain ⟨digits_eq, nonempty, _⟩ := whole?_eq_some.1 whole_eq
  have whole_shorter := length_someDigits? (someDigits?_eq_some.2 ⟨digits_eq, nonempty⟩)
  have fraction_shorter := length_fraction? fraction_eq
  have exponent_shorter := length_exponent? exponent_eq
  omega

end Numeral

/-! ## Strings -/

namespace Quoted

theorem length_read? {text rest : Bytes} {pieces : List Piece}
    (read : read? text = some (pieces, rest)) : rest.length < text.length := by
  fun_induction read? text generalizing pieces rest with
  | case2 byte after quote =>
      simp only [Option.some.injEq, Prod.mk.injEq] at read
      obtain ⟨rfl, rfl⟩ := read
      simp
  | case4 byte plain slash letter isUnit first second third fourth after code found last later unit induction =>
      simp only [Option.some.injEq, Prod.mk.injEq] at read
      obtain ⟨rfl, rfl⟩ := read
      have shorter := induction later
      simp only [List.length_cons]
      omega
  | case7 byte plain slash letter after other value found last later unescape induction =>
      simp only [Option.some.injEq, Prod.mk.injEq] at read
      obtain ⟨rfl, rfl⟩ := read
      have shorter := induction later
      simp only [List.length_cons]
      omega
  | case10 byte after plain other printable found last later induction =>
      simp only [Option.some.injEq, Prod.mk.injEq] at read
      obtain ⟨rfl, rfl⟩ := read
      have shorter := induction later
      simp only [List.length_cons]
      omega
  | _ => cases read

end Quoted

/-! ## Tokens -/

namespace Token

theorem length_word? {letters : List Char} {text rest : Bytes}
    (read : word? letters text = some rest) : rest.length ≤ text.length := by
  fun_induction word? letters text with
  | case1 text =>
      cases read
      exact Nat.le_refl _
  | case2 => cases read
  | case3 letter letters byte text same induction =>
      have shorter := induction read
      simp only [List.length_cons]
      omega
  | case4 => cases read

/-- A token takes at least one byte. -/
theorem length_read? {text rest : Bytes} {token : Token}
    (read : read? text = some (token, rest)) : rest.length < text.length := by
  cases text with
  | nil => cases read
  | cons byte text =>
      rw [read?] at read
      rw [List.length_cons]
      split at read
      · cases read
        exact Nat.lt_succ_self _
      · split at read
        · obtain ⟨⟨pieces, after⟩, later, same⟩ := Option.map_eq_some_iff.1 read
          cases same
          exact Nat.lt_succ_of_lt (Quoted.length_read? later)
        · split at read
          · obtain ⟨after, later, same⟩ := Option.map_eq_some_iff.1 read
            cases same
            exact Nat.lt_succ_of_le (length_word? later)
          · split at read
            · obtain ⟨after, later, same⟩ := Option.map_eq_some_iff.1 read
              cases same
              exact Nat.lt_succ_of_le (length_word? later)
            · split at read
              · obtain ⟨after, later, same⟩ := Option.map_eq_some_iff.1 read
                cases same
                exact Nat.lt_succ_of_le (length_word? later)
              · obtain ⟨⟨numeral, after⟩, later, same⟩ := Option.map_eq_some_iff.1 read
                cases same
                exact Numeral.length_read? later

/-- Any fuel does that is not less than the length of the text. -/
theorem readFrom_eq_readAll {text : Bytes} {fuel : Nat} (enough : text.length ≤ fuel) :
    readFrom fuel text = readAll text := by
  suffices same : ∀ {left right : Nat} {text : Bytes}, text.length ≤ left → text.length ≤ right →
      readFrom left text = readFrom right text from same enough (Nat.le_refl _)
  intro left
  induction left with
  | zero =>
      intro right text left_enough _
      obtain rfl := List.length_eq_zero_iff.1 (Nat.le_zero.1 left_enough)
      cases right <;> rfl
  | succ left induction =>
      intro right text left_enough right_enough
      cases text with
      | nil => cases right <;> rfl
      | cons byte text =>
          rw [List.length_cons] at left_enough right_enough
          obtain ⟨right, rfl⟩ : ∃ fuel, right = fuel + 1 := ⟨right - 1, by omega⟩
          rw [readFrom, readFrom]
          split
          · exact induction (by omega) (by omega)
          · split
            · rfl
            · rename_i after read
              have shorter := length_read? read
              rw [List.length_cons] at shorter
              have same := @induction right after (by omega) (by omega)
              rw [same]

theorem readAll_blank {byte : UInt8} (blank : Ascii.isBlank byte = true) (text : Bytes) :
    readAll (byte :: text) = readAll text := by
  rw [readAll, List.length_cons, readFrom, if_pos blank]
  exact readFrom_eq_readAll (Nat.le_refl _)

theorem readAll_token {byte : UInt8} {text rest : Bytes} {token : Token}
    (black : Ascii.isBlank byte = false) (read : read? (byte :: text) = some (token, rest)) :
    readAll (byte :: text) = (readAll rest).map (token :: ·) := by
  have shorter := length_read? read
  rw [List.length_cons] at shorter
  rw [readAll, List.length_cons, readFrom, if_neg (by simp [black]), read]
  simp only
  rw [readFrom_eq_readAll (by omega)]

end Token

end TieredCache.Json
