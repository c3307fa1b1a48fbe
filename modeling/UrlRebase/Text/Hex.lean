import UrlRebase.Text.Basic

/-!
# Hexadecimal digits

Numbers in base sixteen.  Digits are read in either letter case and written in lower case.
-/

namespace UrlRebase.Text

/-- A number in base sixteen with at least the given number of digits. -/
def hex (width n : Nat) : Text :=
  let digits := ofChars (Nat.toDigits 16 n)
  List.replicate (width - digits.length) ('0' : CodePoint) ++ digits

def hexValue? (c : CodePoint) : Option Nat :=
  if '0' ≤ c ∧ c ≤ '9' then some (c.toNat - '0'.toNat)
  else if 'a' ≤ c ∧ c ≤ 'f' then some (c.toNat - 'a'.toNat + 10)
  else if 'A' ≤ c ∧ c ≤ 'F' then some (c.toNat - 'A'.toNat + 10)
  else none

def isHex (c : CodePoint) : Bool :=
  (hexValue? c).isSome

def hexNumber (digits : Text) : Nat :=
  digits.foldl (fun value c => value * 16 + (hexValue? c).getD 0) 0

end UrlRebase.Text
