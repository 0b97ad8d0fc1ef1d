import TieredCache.Power
import TieredCache.Text.Utf8

/-!
# SHA-1

The digest that names a key's record: five words, chained over the blocks of the padded message.
-/

namespace TieredCache.Digest

/-- The five chained words. -/
structure Words where
  a : UInt32
  b : UInt32
  c : UInt32
  d : UInt32
  e : UInt32
  deriving DecidableEq, Repr

/-- The words before the first block. -/
def Words.initial : Words := ⟨0x67452301, 0xEFCDAB89, 0x98BADCFE, 0x10325476, 0xC3D2E1F0⟩

/-- Rotation to the left by fewer than 32 places. -/
def rotate (places : UInt32) (word : UInt32) : UInt32 :=
  (word <<< places) ||| (word >>> (32 - places))

/-- The message, a one bit, zeros to 56 bytes beyond a multiple of 64, and the length in bits. -/
def pad (message : Bytes) : Bytes :=
  let size := message.length
  let zeros := (119 - size % 64) % 64
  let bits := 8 * size
  message ++ 0x80 :: List.replicate zeros 0 ++
    (List.range 8).map fun place => UInt8.ofNat (bits / Nat.pow 256 (7 - place))

/-- The big-endian words of a byte string. -/
def words : Bytes → List UInt32
  | first :: second :: third :: fourth :: rest =>
    (first.toUInt32 <<< 24 ||| second.toUInt32 <<< 16 ||| third.toUInt32 <<< 8 ||| fourth.toUInt32)
      :: words rest
  | _ => []

/-- The next word of a schedule, from the sixteen before it, oldest first. -/
def nextWord (window : List UInt32) : UInt32 :=
  rotate 1 (window.getD 13 0 ^^^ window.getD 8 0 ^^^ window.getD 2 0 ^^^ window.getD 0 0)

/-- The function and the constant of a round. -/
def mix (round : Nat) (b c d : UInt32) : UInt32 :=
  if round < 20 then ((b &&& c) ||| (~~~b &&& d)) + 0x5A827999
  else if round < 40 then (b ^^^ c ^^^ d) + 0x6ED9EBA1
  else if round < 60 then ((b &&& c) ||| (b &&& d) ||| (c &&& d)) + 0x8F1BBCDC
  else (b ^^^ c ^^^ d) + 0xCA62C1D6

/-- One round, with the word of the schedule that it takes up. -/
def Words.round (state : Words) (round : Nat) (word : UInt32) : Words :=
  ⟨rotate 5 state.a + mix round state.b state.c state.d + state.e + word,
    state.a, rotate 30 state.b, state.c, state.d⟩

/-- The rounds from `round` on. The window holds the next sixteen words of the schedule. -/
def rounds : Nat → Nat → List UInt32 → Words → Words
  | 0, _, _, state => state
  | left + 1, round, window, state =>
    rounds left (round + 1) (window.tail ++ [nextWord window]) (state.round round (window.headD 0))

/-- Chains one block. -/
def Words.absorb (state : Words) (block : List UInt32) : Words :=
  let mixed := rounds 80 0 block state
  ⟨state.a + mixed.a, state.b + mixed.b, state.c + mixed.c, state.d + mixed.d, state.e + mixed.e⟩

/-- Chains a number of blocks of sixteen words. -/
def absorbAll : Nat → List UInt32 → Words → Words
  | 0, _, state => state
  | blocks + 1, schedule, state =>
    absorbAll blocks (schedule.drop 16) (state.absorb (schedule.take 16))

/-- The eight lower-case hexadecimal digits of a word. -/
def hexWord (word : UInt32) : List Char :=
  (List.range 8).map fun place => Ascii.hexDigit (word.toNat / Nat.pow 16 (7 - place) % 16)

/-- The forty hexadecimal digits of the SHA-1 digest of a message. -/
def sha1 (message : Bytes) : List Char :=
  let schedule := words (pad message)
  let state := absorbAll (schedule.length / 16) schedule Words.initial
  hexWord state.a ++ hexWord state.b ++ hexWord state.c ++ hexWord state.d ++ hexWord state.e

@[simp] theorem length_hexWord (word : UInt32) : (hexWord word).length = 8 := by simp [hexWord]

/-- Every digest has forty digits. -/
@[simp] theorem length_sha1 (message : Bytes) : (sha1 message).length = 40 := by simp [sha1]

end TieredCache.Digest
