import TieredCache.Proofs.Json.Spelling

/-!
# Written numbers

Every number is written as a numeral: an integer by its digits, a double by the digits that were
chosen for it. No numeral but a lone zero begins with the digit zero, so every written number can be
read.
-/

namespace TieredCache

/-! ## Digits of a natural number -/

open Json.Numeral (IsDigits)

theorem isDigits_toDigits (value : Nat) : IsDigits (Nat.toDigits 10 value) :=
  ⟨Nat.toDigits_ne_nil, fun _ found => Nat.isDigit_of_mem_toDigits (by decide) (by decide) found⟩

theorem head?_toDigits {value : Nat} (positive : value ≠ 0) :
    (Nat.toDigits 10 value).head? ≠ some '0' := by
  induction value using Nat.strongRecOn with
  | ind value induction =>
      by_cases small : value < 10
      · rw [Nat.toDigits_of_lt_base small]
        have shown : ∀ digit, digit < 10 → digit ≠ 0 → Nat.digitChar digit ≠ '0' := by decide
        simpa using shown value small positive
      · rw [Nat.toDigits_of_base_le (by decide) (by omega)]
        have front : Nat.toDigits 10 (value / 10) ≠ [] := Nat.toDigits_ne_nil
        rw [List.head?_append, List.head?_eq_some_head front, Option.some_or, ← List.head?_eq_some_head front]
        exact induction (value / 10) (by omega) (by omega)

theorem isDigits_append {left right : List Char} (left_digits : IsDigits left)
    (right_digits : ∀ digit ∈ right, digit.isDigit) : IsDigits (left ++ right) := by
  refine ⟨by simp [left_digits.1], fun digit found => ?_⟩
  rcases List.mem_append.1 found with found | found
  · exact left_digits.2 digit found
  · exact right_digits digit found

theorem isDigit_of_mem_replicate {count : Nat} :
    ∀ digit ∈ List.replicate count '0', digit.isDigit := by
  intro digit found
  rw [List.eq_of_mem_replicate found]
  rfl

namespace Double

/-! ## The digits of a double -/

theorem digits_strip (fuel : Nat) {number : Decimal} (positive : number.digits ≠ 0) :
    (number.strip fuel).digits ≠ 0 := by
  induction fuel generalizing number with
  | zero => exact positive
  | succ fuel induction =>
      rw [Decimal.strip]
      split
      · apply induction
        simp only
        omega
      · exact positive

theorem strip_of_zero (fuel : Nat) {number : Decimal} (zero : number.digits = 0) :
    number.strip fuel = number := by
  cases fuel with
  | zero => rfl
  | succ fuel => rw [Decimal.strip, if_neg (by simp [zero])]

theorem nearest?_ne_zero {range : Interval} (positive : 0 < range.low) {digits : Nat}
    (found : range.nearest? = some digits) : digits ≠ 0 := by
  have not_held : range.holds 0 = false := by
    unfold Interval.holds
    split
    · simp
      omega
    · simp
  rintro rfl
  unfold Interval.nearest? at found
  simp only at found
  split at found
  · cases found
  · rename_i held _
    simp only [Option.some.injEq] at found
    rw [found, not_held] at held
    cases held
  · exact absurd (Option.some.inj found) (Nat.succ_ne_zero _)
  · rename_i held _
    split at found
    · simp only [Option.some.injEq] at found
      rw [found, not_held] at held
      cases held
    · exact absurd (Option.some.inj found) (Nat.succ_ne_zero _)

/-- The first decimal on the grids is not zero, unless even the last grid is too coarse for the value. -/
theorem digits_firstOnGrid {range : Interval} (positive : 0 < range.low) (fuel : Nat)
    (exponent : Int) :
    (firstOnGrid range fuel exponent).digits ≠ 0 ∨
      range.middle / range.denominator = 0 ∧
        (firstOnGrid range fuel exponent).exponent = exponent - fuel := by
  induction fuel generalizing exponent with
  | zero =>
      rw [firstOnGrid]
      by_cases zero : range.middle / range.denominator = 0
      · exact Or.inr ⟨zero, by simp⟩
      · exact Or.inl zero
  | succ fuel induction =>
      rw [firstOnGrid]
      split
      · rename_i digits found
        have scaled : 0 < (range.inUnits exponent).low := Nat.mul_pos positive (Nat.pow_pos (by decide))
        exact Or.inl (nearest?_ne_zero scaled found)
      · rcases induction (exponent - 1) with found | ⟨zero, exponent_eq⟩
        · exact Or.inl found
        · refine Or.inr ⟨zero, ?_⟩
          rw [exponent_eq]
          push_cast
          omega

theorem low_interval {double : Double} (positive : double.significand ≠ 0) :
    0 < double.interval.low := by
  unfold interval
  simp only
  refine Nat.mul_pos ?_ (Nat.pow_pos (by decide))
  split <;> omega

theorem denominator_interval (double : Double) : 0 < double.interval.denominator := by
  unfold interval
  exact Nat.pow_pos (by decide)

/-- The digits of a double other than zero are not zero, or they stand far behind the point. -/
theorem digits_shortest {double : Double} (positive : double.significand ≠ 0) :
    double.shortest.digits ≠ 0 ∨ double.shortest.exponent < 0 := by
  unfold shortest
  simp only
  rcases digits_firstOnGrid (low_interval positive) 18
    (decimalExponent double.interval.middle double.interval.denominator) with found | ⟨zero, exponent⟩
  · exact Or.inl (digits_strip 18 found)
  · by_cases digits : (firstOnGrid double.interval 18
        (decimalExponent double.interval.middle double.interval.denominator)).digits = 0
    · right
      have small : double.interval.middle < double.interval.denominator :=
        (Nat.div_eq_zero_iff_lt (denominator_interval double)).1 zero
      rw [strip_of_zero 18 digits, exponent, decimalExponent, if_neg (Nat.not_le.2 small)]
      omega
    · exact Or.inl (digits_strip 18 digits)

/-! ## The numeral of a double -/

/-- The numeral of the magnitude of a double whose digits are `number * 10 ^ exponent`. -/
def magnitude (negative : Bool) (decimal : Decimal) : Json.Numeral :=
  let digits := Nat.toDigits 10 decimal.digits
  let point : Int := digits.length + decimal.exponent
  if 0 < point ∧ point ≤ 16 then
    let fraction := digits.drop point.toNat
    ⟨negative, digits.take point.toNat ++ List.replicate decimal.exponent.toNat '0',
      some (if fraction.isEmpty then ['0'] else fraction), none⟩
  else if -5 < point ∧ point ≤ 0 then
    ⟨negative, ['0'], some (List.replicate (-point).toNat '0' ++ digits), none⟩
  else
    ⟨negative, digits.take 1, if digits.tail.isEmpty then none else some digits.tail,
      some (!decide (1 ≤ point), Nat.toDigits 10 (point - 1).natAbs)⟩

/-- The numeral that a double is written as. -/
def numeral (double : Double) : Json.Numeral :=
  if double.significand = 0 then ⟨double.isNegative, ['0'], some ['0'], none⟩
  else magnitude double.isNegative double.shortest

theorem chars_magnitude (negative : Bool) (decimal : Decimal) :
    (magnitude negative decimal).chars =
      (if negative then ['-'] else []) ++ (magnitude false decimal).chars := by
  unfold magnitude Json.Numeral.chars
  simp only
  split
  · simp
  · split <;> simp

theorem chars_numeral (double : Double) : double.numeral.chars = double.text := by
  have signed : ∀ text : List Char,
      (if double.isNegative then ['-'] else []) ++ text =
        if double.isNegative then '-' :: text else text := by
    intro text
    split <;> rfl
  unfold numeral text
  simp only
  rw [← signed]
  split
  · simp [Json.Numeral.chars, Json.Numeral.fractionChars, Json.Numeral.exponentChars]
  · rw [chars_magnitude]
    congr 1
    unfold magnitude Json.Numeral.chars
    simp only
    split
    · simp [Json.Numeral.fractionChars, Json.Numeral.exponentChars]
    · split
      · simp [Json.Numeral.fractionChars, Json.Numeral.exponentChars]
      · simp only [Json.Numeral.exponentChars, List.append_assoc, Bool.not_eq_true',
          decide_eq_false_iff_not, ite_not, Bool.false_eq_true, if_false, List.nil_append]
        congr 2
        split <;> rfl

theorem isDigits_zero : IsDigits ['0'] := ⟨by simp, by simp⟩

theorem proper_magnitude (negative : Bool) {decimal : Decimal}
    (digits_or : decimal.digits ≠ 0 ∨ decimal.exponent < 0) :
    (magnitude negative decimal).Proper := by
  have all_digits := isDigits_toDigits decimal.digits
  have no_zero := @head?_toDigits decimal.digits
  have lone_zero : decimal.digits = 0 → (Nat.toDigits 10 decimal.digits).length = 1 := by
    rintro zero
    rw [zero]
    rfl
  unfold magnitude
  generalize Nat.toDigits 10 decimal.digits = digits at all_digits no_zero lone_zero ⊢
  obtain ⟨first, others, rfl⟩ := List.exists_cons_of_ne_nil all_digits.1
  simp only
  split
  · rename_i inside
    obtain ⟨point, point_eq⟩ : ∃ point : Nat,
        (((first :: others).length : Int) + decimal.exponent).toNat = point + 1 :=
      ⟨(((first :: others).length : Int) + decimal.exponent).toNat - 1, by omega⟩
    have taken : IsDigits ((first :: others).take (point + 1)) :=
      ⟨by simp, fun digit found => all_digits.2 digit (List.mem_of_mem_take found)⟩
    have positive : decimal.digits ≠ 0 := by
      intro zero
      have behind := digits_or.resolve_left fun differs => differs zero
      have one := lone_zero zero
      omega
    rw [point_eq]
    refine ⟨isDigits_append taken isDigit_of_mem_replicate, ?_, ?_, by simp⟩
    · intro digit more same
      rw [List.take_succ_cons, List.cons_append, List.cons.injEq] at same
      exact no_zero positive (by rw [same.1]; rfl)
    · intro fraction found
      obtain rfl := Option.some.inj found
      split
      · exact isDigits_zero
      · rename_i nonempty
        refine ⟨by simpa using nonempty, fun digit found => ?_⟩
        exact all_digits.2 digit (List.mem_of_mem_drop found)
  · split
    · refine ⟨isDigits_zero, by simp, ?_, by simp⟩
      intro fraction found
      obtain rfl := Option.some.inj found
      refine ⟨by simp, fun digit found => ?_⟩
      rcases List.mem_append.1 found with found | found
      · exact isDigit_of_mem_replicate digit found
      · exact all_digits.2 digit found
    · refine ⟨⟨by simp, ?_⟩, by simp, ?_, ?_⟩
      · intro digit found
        exact all_digits.2 digit (List.mem_of_mem_take found)
      · intro fraction found
        split at found
        · cases found
        · rename_i nonempty
          obtain rfl := Option.some.inj found
          refine ⟨by simpa using nonempty, fun digit found => ?_⟩
          exact all_digits.2 digit (List.mem_cons_of_mem first found)
      · intro part found
        obtain rfl := Option.some.inj found
        exact isDigits_toDigits _

theorem proper_numeral (double : Double) : double.numeral.Proper := by
  unfold numeral
  split
  · exact ⟨isDigits_zero, by simp, by simp [isDigits_zero], by simp⟩
  · rename_i positive
    exact proper_magnitude _ (digits_shortest positive)

end Double

namespace Json.Number

/-! ## Numbers -/

/-- The numeral that a number is written as. -/
def numeral : Number → Numeral
  | .whole value => ⟨decide (value < 0), Nat.toDigits 10 value.natAbs, none, none⟩
  | .real value => value.numeral

theorem write_eq (number : Number) : number.write = Ascii.bytes number.numeral.chars := by
  cases number with
  | whole value =>
      rw [write, numeral, Numeral.chars]
      cases value with
      | ofNat value =>
          have sign : ¬ (value : Int) < 0 := by omega
          simp [integerText, sign, Numeral.fractionChars, Numeral.exponentChars]
      | negSucc value =>
          simp [integerText, Int.negSucc_lt_zero, Numeral.fractionChars, Numeral.exponentChars]
  | real value => rw [write, numeral, Double.chars_numeral]

theorem proper_numeral (number : Number) : number.numeral.Proper := by
  cases number with
  | whole value =>
      refine ⟨isDigits_toDigits _, ?_, by simp [numeral], by simp [numeral]⟩
      intro digit others same
      simp only [numeral] at same
      by_cases zero : value.natAbs = 0
      · rw [zero] at same
        cases same
      · exact head?_toDigits zero (by rw [same]; rfl)
  | real value => exact value.proper_numeral

/-- A written number is read back as its numeral, whatever ends it. -/
theorem read?_write (number : Number) {more : Bytes} (stops : Numeral.Stops more) :
    Numeral.read? (number.write ++ more) = some (number.numeral, more) := by
  rw [write_eq]
  exact Numeral.read?_chars number.proper_numeral stops

end Json.Number

end TieredCache
