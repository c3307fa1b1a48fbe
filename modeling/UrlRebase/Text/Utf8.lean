import UrlRebase.Text.Basic

/-!
# UTF-8

`encode?` and `decode?` are the strict forms; a lone half of a surrogate pair has no bytes.
`decodeLossy` reads any bytes: each longest start of a character that cannot be completed,
and each byte that starts none, is read as one replacement character.
-/

namespace UrlRebase.Utf8

def encode? (text : Text) : Option ByteArray :=
  (text.mapM CodePoint.char?).map fun characters => (String.ofList characters).toUTF8

/-- The text of bytes, if they are UTF-8. -/
def decode? (bytes : ByteArray) : Option Text :=
  (String.fromUTF8? bytes).map String.text

/-- What the first byte of a character says: its bits, and the bounds of each byte that
has to follow. -/
def lead? (byte : Nat) : Option (Nat × List (Nat × Nat)) :=
  let tail : Nat × Nat := (0x80, 0xBF)
  if byte < 0x80 then some (byte, [])
  else if byte < 0xC2 then none
  else if byte < 0xE0 then some (byte - 0xC0, [tail])
  else if byte = 0xE0 then some (0, [(0xA0, 0xBF), tail])
  else if byte = 0xED then some (0xD, [(0x80, 0x9F), tail])
  else if byte < 0xF0 then some (byte - 0xE0, [tail, tail])
  else if byte = 0xF0 then some (0, [(0x90, 0xBF), tail, tail])
  else if byte < 0xF4 then some (byte - 0xF0, [tail, tail, tail])
  else if byte = 0xF4 then some (4, [(0x80, 0x8F), tail, tail])
  else none

/-- Reads the bytes that have to follow.  Gives the code point if all do, and in any case
the number of bytes that fit. -/
def follow (bits : Nat) : List (Nat × Nat) → List Nat → Option Nat × Nat
  | [], _ => (some bits, 0)
  | _, [] => (none, 0)
  | (low, high) :: bounds, byte :: rest =>
      if low ≤ byte ∧ byte ≤ high then
        let (point, taken) := follow (bits * 64 + byte % 64) bounds rest
        (point, taken + 1)
      else (none, 0)

/-- The text of bytes, with replacement characters for what is not UTF-8. -/
def decodeLossy : List Nat → Text
  | [] => []
  | byte :: rest =>
      match lead? byte with
      | none => '\uFFFD' :: decodeLossy rest
      | some (bits, bounds) =>
          match follow bits bounds rest with
          | (some point, taken) => CodePoint.ofNat point :: decodeLossy (rest.drop taken)
          | (none, taken) => "\uFFFD".text ++ decodeLossy (rest.drop taken)
termination_by bytes => bytes.length
decreasing_by
  all_goals simp only [List.length_drop, List.length_cons]
  all_goals omega

end UrlRebase.Utf8
