import TieredCache.Json.Value
import TieredCache.Proofs.Json.Reading

/-!
# Spelling

How strings and numerals are written, and that what is written is read back.
-/

namespace TieredCache

theorem Ascii.isDigit_toUInt8 {digit : Char} (is_digit : digit.isDigit) :
    Ascii.isDigit digit.toUInt8 = true ∧ Ascii.toChar digit.toUInt8 = digit := by
  simp only [Char.isDigit, Bool.and_eq_true, decide_eq_true_eq] at is_digit
  have low : 48 ≤ digit.toNat := UInt32.le_iff_toNat_le.1 is_digit.1
  have high : digit.toNat ≤ 57 := UInt32.le_iff_toNat_le.1 is_digit.2
  have value : digit.toUInt8.toNat = digit.toNat := by
    rw [Char.toUInt8, UInt32.toNat_toUInt8]
    exact Nat.mod_eq_of_lt (by change digit.toNat < _ ; omega)
  constructor
  · simp only [Ascii.isDigit, Bool.and_eq_true, decide_eq_true_eq, UInt8.le_iff_toNat_le, value]
    exact ⟨low, high⟩
  · rw [Ascii.toChar, value, Char.ofNat_toNat]


namespace Json

/-! ## Strings -/

namespace Quoted

/-- The piece that a byte of a written string is read as. -/
def piece (byte : UInt8) : Piece :=
  if byte < 0x20 ∧ byte ∉ [(8 : UInt8), 9, 10, 12, 13] then .unit byte.toNat else .byte byte

/-- The pieces of a written string. -/
def pieces (text : String) : List Piece := (Utf8.encode text).map piece

theorem unit?_hexPair :
    ∀ byte : Nat, byte < 32 →
      unit? '0'.toUInt8 '0'.toUInt8 (Ascii.hexDigit (byte / 16)).toUInt8
        (Ascii.hexDigit (byte % 16)).toUInt8 = some byte := by
  decide

theorem read?_byte {byte : UInt8} (printable : ¬ byte < 0x20) (no_quote : Ascii.is byte '"' = false)
    (no_slash : Ascii.is byte '\\' = false) (text : Bytes) :
    read? (byte :: text) = (read? text).map fun found => (.byte byte :: found.1, found.2) := by
  rw [read?.eq_def]
  simp only [no_quote, no_slash, printable]
  cases read? text <;> rfl

theorem read?_short {letter value : UInt8} (other : Ascii.is letter 'u' = false)
    (unescape : unescape? letter = some value) (text : Bytes) :
    read? ('\\'.toUInt8 :: letter :: text) =
      (read? text).map fun found => (.byte value :: found.1, found.2) := by
  rw [read?.eq_def]
  have slash : Ascii.is '\\'.toUInt8 '\\' = true := rfl
  have no_quote : Ascii.is '\\'.toUInt8 '"' = false := rfl
  simp only [slash, no_quote, other, unescape]
  cases read? text <;> rfl

theorem read?_unit {first second third fourth : UInt8} {code : Nat}
    (unit : unit? first second third fourth = some code) (text : Bytes) :
    read? ('\\'.toUInt8 :: 'u'.toUInt8 :: first :: second :: third :: fourth :: text) =
      (read? text).map fun found => (.unit code :: found.1, found.2) := by
  rw [read?.eq_def]
  have slash : Ascii.is '\\'.toUInt8 '\\' = true := rfl
  have no_quote : Ascii.is '\\'.toUInt8 '"' = false := rfl
  have letter : Ascii.is 'u'.toUInt8 'u' = true := rfl
  simp only [slash, no_quote, letter, unit]
  cases read? text <;> rfl

theorem read?_escape (byte : UInt8) (text : Bytes) :
    read? (escape byte ++ text) = (read? text).map fun found => (piece byte :: found.1, found.2) := by
  rw [escape]
  split
  · rename_i quote
    obtain rfl : byte = '"'.toUInt8 := by simpa [Ascii.is] using quote
    exact read?_short rfl rfl text
  · rename_i no_quote
    split
    · rename_i slash
      obtain rfl : byte = '\\'.toUInt8 := by simpa [Ascii.is] using slash
      exact read?_short rfl rfl text
    · rename_i no_slash
      by_cases short : byte ∈ [(8 : UInt8), 9, 10, 12, 13]
      · simp only [List.mem_cons, List.not_mem_nil, or_false] at short
        rcases short with rfl | rfl | rfl | rfl | rfl <;> exact read?_short rfl rfl text
      · simp only [List.mem_cons, List.not_mem_nil, or_false, not_or] at short
        simp only [short, if_false]
        split
        · rename_i control
          have small : byte.toNat < 32 := UInt8.lt_iff_toNat_lt.1 control
          have spelled : piece byte = .unit byte.toNat := by simp [piece, control, short]
          rw [spelled]
          exact read?_unit (unit?_hexPair byte.toNat small) text
        · rename_i printable
          have spelled : piece byte = .byte byte := by simp [piece, printable]
          rw [spelled]
          exact read?_byte printable (by simpa using no_quote) (by simpa using no_slash) text

/-- A written string is read as its pieces. -/
theorem read?_flatMap_escape (bytes text : Bytes) :
    read? (bytes.flatMap escape ++ '"'.toUInt8 :: text) = some (bytes.map piece, text) := by
  induction bytes with
  | nil =>
      change read? ('"'.toUInt8 :: text) = some ([], text)
      rw [read?.eq_def]
      rfl
  | cons byte bytes induction =>
      rw [List.flatMap_cons, List.append_assoc, read?_escape, induction]
      rfl

theorem utf8EncodeChar_control :
    ∀ code : Nat, code < 32 → String.utf8EncodeChar (Char.ofNat code) = [UInt8.ofNat code] := by
  decide

theorem isHigh_control {code : Nat} (small : code < 32) : isHigh code = false := by
  simp [isHigh]
  omega

theorem isLow_control {code : Nat} (small : code < 32) : isLow code = false := by
  simp [isLow]
  omega

theorem bytes?_piece (byte : UInt8) (rest : List Piece) :
    bytes? (piece byte :: rest) = (bytes? rest).map (byte :: ·) := by
  rw [piece]
  split
  · rename_i control
    have small : byte.toNat < 32 := UInt8.lt_iff_toNat_lt.1 control.1
    have encoded := utf8EncodeChar_control byte.toNat small
    rw [UInt8.ofNat_toNat] at encoded
    cases rest with
    | nil => simp [bytes?, isHigh_control small, isLow_control small, encoded]
    | cons next rest =>
        cases next <;> simp [bytes?, isHigh_control small, isLow_control small, encoded]
  · rfl

/-- The pieces of a written string stand for the string. -/
@[simp] theorem text?_pieces (text : String) : text? (pieces text) = some text := by
  have bytes_eq : ∀ bytes : Bytes, bytes? (bytes.map piece) = some bytes := by
    intro bytes
    induction bytes with
    | nil => rfl
    | cons byte bytes induction => rw [List.map_cons, bytes?_piece, induction]; rfl
  rw [text?, pieces, bytes_eq]
  exact Utf8.decode?_encode text

end Quoted

/-! ## Numerals -/

namespace Numeral
/-- The part of a written numeral after its whole digits. -/
def fractionChars : Option (List Char) → List Char
  | none => []
  | some digits => '.' :: digits

/-- The end of a written numeral. -/
def exponentChars : Option (Bool × List Char) → List Char
  | none => []
  | some (negative, digits) => 'e' :: (if negative then '-' else '+') :: digits

/-- The written form of a numeral. -/
def chars (numeral : Numeral) : List Char :=
  (if numeral.negative then ['-'] else []) ++ numeral.whole ++
    fractionChars numeral.fraction ++ exponentChars numeral.exponent

/-- Digits, and at least one. -/
def IsDigits (digits : List Char) : Prop := digits ≠ [] ∧ ∀ digit ∈ digits, digit.isDigit

/-- A numeral that can be written. -/
structure Proper (numeral : Numeral) : Prop where
  whole : IsDigits numeral.whole
  no_zero : ∀ digit others, numeral.whole ≠ '0' :: digit :: others
  fraction : ∀ digits ∈ numeral.fraction, IsDigits digits
  exponent : ∀ part ∈ numeral.exponent, IsDigits part.2

theorem digits_bytes {found : List Char} (all_digits : ∀ digit ∈ found, digit.isDigit)
    {more : Bytes} (ends : ∀ byte ∈ more.head?, Ascii.isDigit byte = false) :
    digits (Ascii.bytes found ++ more) = (found, more) := by
  induction found with
  | nil =>
      cases more with
      | nil => rfl
      | cons byte more =>
          have other : Ascii.isDigit byte = false := ends byte rfl
          simp [Ascii.bytes, digits, other]
  | cons digit found induction =>
      obtain ⟨first, others⟩ := List.forall_mem_cons.1 all_digits
      obtain ⟨is_digit, back⟩ := Ascii.isDigit_toUInt8 first
      have rest := induction others
      simp only [Ascii.bytes] at rest
      simp [Ascii.bytes, digits, is_digit, back, rest]

theorem someDigits?_bytes {found : List Char} (proper : IsDigits found)
    {more : Bytes} (ends : ∀ byte ∈ more.head?, Ascii.isDigit byte = false) :
    someDigits? (Ascii.bytes found ++ more) = some (found, more) :=
  someDigits?_eq_some.2 ⟨digits_bytes proper.2 ends, proper.1⟩

theorem exponent?_chars {exponent : Option (Bool × List Char)}
    (proper : ∀ part ∈ exponent, IsDigits part.2) {more : Bytes} (stops : Stops more) :
    exponent? (Ascii.bytes (exponentChars exponent) ++ more) = some (exponent, more) := by
  cases exponent with
  | none =>
      cases more with
      | nil => rfl
      | cons byte more =>
          obtain ⟨_, _, no_e, no_E⟩ := stops_cons.1 stops
          simp [exponentChars, Ascii.bytes, exponent?, no_e, no_E]
  | some part =>
      obtain ⟨negative, digits⟩ := part
      have read : someDigits? (Ascii.bytes digits ++ more) = some (digits, more) :=
        someDigits?_bytes (proper _ rfl) fun byte first => (stops.not_digit byte first).1
      have letter : (Ascii.is 'e'.toUInt8 'e' || Ascii.is 'e'.toUInt8 'E') = true := rfl
      cases negative with
      | true =>
          have sign : exponentSign ('-'.toUInt8 :: (Ascii.bytes digits ++ more)) =
            (true, Ascii.bytes digits ++ more) := rfl
          change exponent? ('e'.toUInt8 :: '-'.toUInt8 :: (Ascii.bytes digits ++ more)) = _
          rw [exponent?_cons, if_pos letter, sign, read]
          rfl
      | false =>
          have sign : exponentSign ('+'.toUInt8 :: (Ascii.bytes digits ++ more)) =
            (false, Ascii.bytes digits ++ more) := rfl
          change exponent? ('e'.toUInt8 :: '+'.toUInt8 :: (Ascii.bytes digits ++ more)) = _
          rw [exponent?_cons, if_pos letter, sign, read]
          rfl

theorem head?_exponentChars (exponent : Option (Bool × List Char)) {more : Bytes}
    (stops : Stops more) :
    ∀ byte ∈ (Ascii.bytes (exponentChars exponent) ++ more).head?,
      Ascii.isDigit byte = false ∧ Ascii.is byte '.' = false := by
  cases exponent with
  | none =>
      intro byte first
      have ends := stops byte first
      simp only [Bool.or_eq_false_iff] at ends
      exact ends.1.1
  | some part =>
      intro byte first
      obtain rfl : 'e'.toUInt8 = byte := by simpa [exponentChars, Ascii.bytes] using first
      exact ⟨rfl, rfl⟩

theorem fraction?_chars {fraction : Option (List Char)}
    (proper : ∀ digits ∈ fraction, IsDigits digits) {more : Bytes}
    (ends : ∀ byte ∈ more.head?, Ascii.isDigit byte = false ∧ Ascii.is byte '.' = false) :
    fraction? (Ascii.bytes (fractionChars fraction) ++ more) = some (fraction, more) := by
  cases fraction with
  | none =>
      cases more with
      | nil => rfl
      | cons byte more => simp [fractionChars, Ascii.bytes, fraction?, (ends byte rfl).2]
  | some digits =>
      have read := someDigits?_bytes (proper _ rfl) fun byte first => (ends byte first).1
      have point : Ascii.is '.'.toUInt8 '.' = true := rfl
      change fraction? ('.'.toUInt8 :: (Ascii.bytes digits ++ more)) = _
      rw [fraction?, if_pos point, read]
      rfl

theorem head?_fractionChars (fraction : Option (List Char)) {more : Bytes}
    (ends : ∀ byte ∈ more.head?, Ascii.isDigit byte = false ∧ Ascii.is byte '.' = false) :
    ∀ byte ∈ (Ascii.bytes (fractionChars fraction) ++ more).head?, Ascii.isDigit byte = false := by
  cases fraction with
  | none => exact fun byte first => (ends byte first).1
  | some digits =>
      intro byte first
      obtain rfl : '.'.toUInt8 = byte := by simpa [fractionChars, Ascii.bytes] using first
      rfl

theorem sign_of_digit {digit : Char} (is_digit : digit.isDigit) (text : Bytes) :
    sign (digit.toUInt8 :: text) = (false, digit.toUInt8 :: text) := by
  have differs : Ascii.is digit.toUInt8 '-' = false := by
    cases same : Ascii.is digit.toUInt8 '-' with
    | false => rfl
    | true =>
        have minus : digit.toUInt8 = '-'.toUInt8 := by simpa [Ascii.is] using same
        have no_digit := (Ascii.isDigit_toUInt8 is_digit).1
        rw [minus] at no_digit
        cases no_digit
  simp [sign, differs]

/-- A proper numeral is read back from its written form. -/
theorem read?_chars {numeral : Numeral} (proper : numeral.Proper) {more : Bytes}
    (stops : Stops more) :
    read? (Ascii.bytes numeral.chars ++ more) = some (numeral, more) := by
  obtain ⟨negative, whole, fraction, exponent⟩ := numeral
  obtain ⟨whole_digits, no_zero, fraction_digits, exponent_digits⟩ := proper
  have exponent_ends := head?_exponentChars exponent stops
  have whole_ends := head?_fractionChars fraction exponent_ends
  have whole_read := whole?_eq_some.2
    ⟨digits_bytes whole_digits.2 whole_ends, whole_digits.1, no_zero⟩
  obtain ⟨digit, others, rfl⟩ := List.exists_cons_of_ne_nil whole_digits.1
  have is_digit := whole_digits.2 digit List.mem_cons_self
  refine read?_eq_some.2 ⟨_, _, ?_, ?_, fraction?_chars fraction_digits exponent_ends,
    exponent?_chars exponent_digits stops⟩
  · cases negative with
    | true => rfl
    | false => simp [chars, Ascii.bytes, sign_of_digit is_digit]
  · cases negative with
    | true => simpa [chars, Ascii.bytes, sign, Ascii.is, fractionChars, exponentChars] using whole_read
    | false => simpa [chars, Ascii.bytes, sign_of_digit is_digit] using whole_read
end Numeral

end Json

end TieredCache
