import TieredCache.Json.Fields
import TieredCache.Json.Ordered
import TieredCache.Proofs.Json.Outlines

/-!
# Round trips

A value whose numbers are all integers is decoded from its outline as it was. Doubles are not: the
digits that are written determine a double, but reading them may come out one place beside it.
-/

namespace TieredCache.Json

/-! ## Integers -/

namespace Number

/-- The value of the digits of an integer. -/
theorem wholeValue_numeral (value : Int) :
    (numeral (.whole value)).wholeValue = value.natAbs := by
  simp only [numeral, Numeral.wholeValue]
  exact Nat.ofDigitChars_ten_toDigits

theorem integer?_numeral {value : Int} (fit : fits value = true) :
    integer? (numeral (.whole value)) = some value := by
  have whole := wholeValue_numeral value
  have integer : (numeral (.whole value)).isInteger = true := rfl
  have sign : (numeral (.whole value)).negative = decide (value < 0) := rfl
  rw [integer?, integer, sign, whole]
  by_cases negative : value < 0
  · have magnitude : -(value.natAbs : Int) = value := by omega
    have nonzero : value.natAbs ≠ 0 := by omega
    simp only [Bool.not_true, Bool.false_eq_true, if_false, decide_eq_true negative, magnitude, fit,
      decide_eq_true nonzero, Bool.true_and, if_true]
  · have magnitude : (value.natAbs : Int) = value := by omega
    simp only [Bool.not_true, Bool.false_eq_true, if_false, decide_eq_false negative, Bool.not_false,
      magnitude, fit, if_true]

end Number

theorem Outline.natural?_numeral {limit value : Nat} (small : value ≤ limit) :
    Outline.natural? limit (.number (Number.numeral (.whole value))) = some value := by
  have whole := Number.wholeValue_numeral value
  have sign : (Number.numeral (.whole value)).negative = false := by
    simp [Number.numeral]
  have integer : (Number.numeral (.whole value)).isInteger = true := rfl
  rw [Outline.natural?, Numeral.natural?, whole, sign, integer]
  simp [small]

/-! ## Values -/

namespace Value

mutual

/-- Every number in a value is an integer that fits a word. -/
def Integral : Value → Prop
  | .number (.whole amount) => Number.fits amount = true
  | .number (.real _) => False
  | .list items => IntegralItems items
  | .object members => IntegralMembers members
  | _ => True

/-- All items are integral. -/
def IntegralItems : List Value → Prop
  | [] => True
  | item :: items => item.Integral ∧ IntegralItems items

/-- The values of all members are integral. -/
def IntegralMembers : List (String × Value) → Prop
  | [] => True
  | (_, item) :: members => item.Integral ∧ IntegralMembers members

end

theorem insertNew_of_first {key : String} {value : Value} {members : List (String × Value)}
    (first : ∀ member ∈ members, key < member.1) :
    insertNew key value members = (key, value) :: members := by
  cases members with
  | nil => rfl
  | cons member members =>
      obtain ⟨other, held⟩ := member
      rw [insertNew, if_pos (first _ List.mem_cons_self)]

mutual

/-- An integral value is decoded from its outline. -/
theorem ofOutline?_outline :
    ∀ {value : Value}, value.Ordered → value.Integral → ofOutline? value.outline = some value
  | .null, _, _ => rfl
  | .truth _, _, _ => rfl
  | .number (.whole amount), _, integral => by
      rw [outline, ofOutline?, Number.ofNumeral?, Number.integer?_numeral integral]
      rfl
  | .number (.real _), _, integral => integral.elim
  | .text string, _, _ => by
      rw [outline, ofOutline?, Quoted.text?_pieces]
      rfl
  | .list items, ordered, integral => by
      rw [outline, ofOutline?, ofItems?_outlines ordered integral]
      rfl
  | .object members, ordered, integral => by
      rw [outline, ofOutline?, ofMembers?_outlineMembers ordered.1 ordered.2 integral]
      rfl

/-- Integral items are decoded from their outlines. -/
theorem ofItems?_outlines :
    ∀ {items : List Value}, OrderedItems items → IntegralItems items →
      ofItems? (outlines items) = some items
  | [], _, _ => rfl
  | _ :: _, ordered, integral => by
      rw [outlines, ofItems?, ofOutline?_outline ordered.1 integral.1,
        ofItems?_outlines ordered.2 integral.2]

/-- The members of an object with integral values are decoded from their outlines. -/
theorem ofMembers?_outlineMembers :
    ∀ {members : List (String × Value)}, members.Pairwise (fun left right => left.1 < right.1) →
      OrderedMembers members → IntegralMembers members →
        ofMembers? (outlineMembers members) = some members
  | [], _, _, _ => rfl
  | (_, _) :: _, ascending, ordered, integral => by
      obtain ⟨first, later⟩ := List.pairwise_cons.1 ascending
      rw [outlineMembers, ofMembers?, Quoted.text?_pieces, ofOutline?_outline ordered.1 integral.1,
        ofMembers?_outlineMembers later ordered.2 integral.2]
      simp only
      rw [insertNew_of_first first]

end

mutual

/-- A value and its outline are nested equally deep. -/
theorem depth_outline : ∀ value : Value, value.outline.depth = value.depth
  | .null => rfl
  | .truth _ => rfl
  | .number _ => rfl
  | .text _ => rfl
  | .list items => by rw [outline, Outline.depth, depth, depth_outlines items]
  | .object members => by rw [outline, Outline.depth, depth, depth_outlineMembers members]

theorem depth_outlines :
    ∀ items : List Value, Outline.depthOfItems (outlines items) = depthOfItems items
  | [] => rfl
  | item :: items => by
      rw [outlines, Outline.depthOfItems, depthOfItems, depth_outline item, depth_outlines items]

theorem depth_outlineMembers :
    ∀ members : List (String × Value),
      Outline.depthOfMembers (outlineMembers members) = depthOfMembers members
  | [] => rfl
  | (_, item) :: members => by
      rw [outlineMembers, Outline.depthOfMembers, depthOfMembers, depth_outline item,
        depth_outlineMembers members]

end

end Value

end TieredCache.Json
