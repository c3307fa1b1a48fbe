import UrlRebase.Text.Quoted

/-!
# The MD5 digest

The digest of a sequence of bytes: the bytes are padded to blocks of sixteen words, and
each block is mixed into four words in sixty-four rounds.
-/

namespace UrlRebase.Md5

def addends : List UInt32 :=
  [0xD76AA478, 0xE8C7B756, 0x242070DB, 0xC1BDCEEE, 0xF57C0FAF, 0x4787C62A, 0xA8304613,
   0xFD469501, 0x698098D8, 0x8B44F7AF, 0xFFFF5BB1, 0x895CD7BE, 0x6B901122, 0xFD987193,
   0xA679438E, 0x49B40821, 0xF61E2562, 0xC040B340, 0x265E5A51, 0xE9B6C7AA, 0xD62F105D,
   0x02441453, 0xD8A1E681, 0xE7D3FBC8, 0x21E1CDE6, 0xC33707D6, 0xF4D50D87, 0x455A14ED,
   0xA9E3E905, 0xFCEFA3F8, 0x676F02D9, 0x8D2A4C8A, 0xFFFA3942, 0x8771F681, 0x6D9D6122,
   0xFDE5380C, 0xA4BEEA44, 0x4BDECFA9, 0xF6BB4B60, 0xBEBFBC70, 0x289B7EC6, 0xEAA127FA,
   0xD4EF3085, 0x04881D05, 0xD9D4D039, 0xE6DB99E5, 0x1FA27CF8, 0xC4AC5665, 0xF4292244,
   0x432AFF97, 0xAB9423A7, 0xFC93A039, 0x655B59C3, 0x8F0CCC92, 0xFFEFF47D, 0x85845DD1,
   0x6FA87E4F, 0xFE2CE6E0, 0xA3014314, 0x4E0811A1, 0xF7537E82, 0xBD3AF235, 0x2AD7D2BB,
   0xEB86D391]

def rotations : List UInt32 :=
  [7, 12, 17, 22, 7, 12, 17, 22, 7, 12, 17, 22, 7, 12, 17, 22, 5, 9, 14, 20, 5, 9, 14, 20,
   5, 9, 14, 20, 5, 9, 14, 20, 4, 11, 16, 23, 4, 11, 16, 23, 4, 11, 16, 23, 4, 11, 16, 23,
   6, 10, 15, 21, 6, 10, 15, 21, 6, 10, 15, 21, 6, 10, 15, 21]

/-- The four words that a digest is made of. -/
structure State where
  a : UInt32
  b : UInt32
  c : UInt32
  d : UInt32
deriving DecidableEq, Repr

def State.initial : State :=
  ⟨0x67452301, 0xEFCDAB89, 0x98BADCFE, 0x10325476⟩

def littleEndian (count n : Nat) : List UInt8 :=
  (List.range count).map fun i => (n / Nat.pow 256 i).toUInt8

/-- The bytes with a mark, zeros and the number of their bits behind them. -/
def pad (bytes : List UInt8) : List UInt8 :=
  let zeros := (119 - bytes.length % 64) % 64
  bytes ++ 0x80 :: (List.replicate zeros 0 ++ littleEndian 8 (bytes.length * 8))

/-- The words of a block of bytes, each with its lowest byte first. -/
def words : List UInt8 → List UInt32
  | a :: b :: c :: d :: rest =>
      (a.toUInt32 ||| b.toUInt32 <<< 8 ||| c.toUInt32 <<< 16 ||| d.toUInt32 <<< 24) :: words rest
  | _ => []

def rotate (word amount : UInt32) : UInt32 :=
  word <<< amount ||| word >>> (32 - amount)

def mix (round : Nat) (state : State) : UInt32 × Nat :=
  let { b, c, d, .. } := state
  if round < 16 then ((b &&& c) ||| (~~~b &&& d), round)
  else if round < 32 then ((d &&& b) ||| (~~~d &&& c), (5 * round + 1) % 16)
  else if round < 48 then (b ^^^ c ^^^ d, (3 * round + 5) % 16)
  else (c ^^^ (b ||| ~~~d), (7 * round) % 16)

def round (block : Array UInt32) (state : State) (step : Nat × UInt32 × UInt32) : State :=
  let (number, addend, rotation) := step
  let (mixed, index) := mix number state
  let sum := state.a + mixed + addend + block.getD index 0
  ⟨state.d, state.b + rotate sum rotation, state.b, state.c⟩

def compress (state : State) (block : Array UInt32) : State :=
  let steps := (List.range 64).zip (addends.zip rotations)
  let mixed := steps.foldl (round block) state
  ⟨state.a + mixed.a, state.b + mixed.b, state.c + mixed.c, state.d + mixed.d⟩

/-- Mixes words into a state, sixteen at a time. -/
def absorb (state : State) (words : List UInt32) : State :=
  if words.length < 16 then state
  else absorb (compress state (words.take 16).toArray) (words.drop 16)
termination_by words.length
decreasing_by
  simp only [List.length_drop]
  omega

def digest (bytes : List UInt8) : List UInt8 :=
  let state := absorb .initial (words (pad bytes))
  [state.a, state.b, state.c, state.d].flatMap fun word => littleEndian 4 word.toNat

def hexDigest (bytes : ByteArray) : Text :=
  (digest bytes.data.toList).flatMap fun byte => Text.hex 2 byte.toNat

end UrlRebase.Md5
