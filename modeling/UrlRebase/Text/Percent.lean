import UrlRebase.Text.Hex
import UrlRebase.Text.Utf8

/-!
# Percent escapes

A percent sign and two hexadecimal digits spell a byte.  The bytes of each run of ASCII
characters are read together as UTF-8, so an escaped character never joins bytes from
both sides of a character beyond ASCII.  A percent sign without two digits is itself.
-/

namespace UrlRebase.Percent

def isAscii (c : CodePoint) : Bool :=
  c.toNat < 0x80

def bytes : Text → List Nat
  | '%' :: a :: b :: rest =>
      match Text.hexValue? a, Text.hexValue? b with
      | some high, some low => (high * 16 + low) :: bytes rest
      | _, _ => '%'.toNat :: bytes (a :: b :: rest)
  | c :: rest => c.toNat :: bytes rest
  | [] => []

def decode : Text → Text
  | [] => []
  | c :: rest =>
      if isAscii c then
        Utf8.decodeLossy (bytes (c :: rest.takeWhile isAscii)) ++
          decode (rest.dropWhile isAscii)
      else c :: decode rest
termination_by text => text.length
decreasing_by
  · have := (List.dropWhile_suffix isAscii (l := rest)).length_le
    simp only [List.length_cons]
    omega
  · simp

end UrlRebase.Percent
