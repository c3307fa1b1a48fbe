import UrlRebase.SourceMap.Error

/-!
# Variable-length quantities

A number is written in base 32, lowest digit first, with one base64 character for each
digit.  All digits of a number but the last have 32 added.  The lowest bit of the whole
is the sign, so an integer of any size and sign has a spelling.
-/

namespace UrlRebase.Vlq

/-- The value of a base64 digit. -/
def digit? (c : CodePoint) : Option Nat :=
  if 'A' ≤ c ∧ c ≤ 'Z' then some (c.toNat - 'A'.toNat)
  else if 'a' ≤ c ∧ c ≤ 'z' then some (c.toNat - 'a'.toNat + 26)
  else if '0' ≤ c ∧ c ≤ '9' then some (c.toNat - '0'.toNat + 52)
  else if c = '+' then some 62
  else if c = '/' then some 63
  else none

/-- The base64 digit with a value below 64. -/
def digit (n : Nat) : CodePoint :=
  if n < 26 then CodePoint.ofNat ('A'.toNat + n)
  else if n < 52 then CodePoint.ofNat ('a'.toNat + (n - 26))
  else if n < 62 then CodePoint.ofNat ('0'.toNat + (n - 52))
  else if n = 62 then '+'
  else '/'

/-- The digits of a number, lowest first, all but the last with 32 added. -/
def digits (n : Nat) : List Nat :=
  if n < 32 then [n] else (n % 32 + 32) :: digits (n / 32)
termination_by n
decreasing_by omega

/-- The numbers that a sequence of digits spells; nothing if it ends within a number. -/
def numbers? : List Nat → Option (List Nat)
  | [] => some []
  | d :: rest =>
      if d < 32 then (numbers? rest).map (d :: ·)
      else
        match numbers? rest with
        | some (n :: others) => some ((d - 32 + 32 * n) :: others)
        | _ => none

/-- An integer as a natural number with the sign in the lowest bit. -/
def fold (value : Int) : Nat :=
  if value < 0 then 2 * value.natAbs + 1 else 2 * value.natAbs

def unfold (n : Nat) : Int :=
  if n % 2 = 1 then -((n / 2 : Nat) : Int) else (n / 2 : Nat)

def encode (values : List Int) : Text :=
  values.flatMap fun value => (digits (fold value)).map digit

/-- The values of the characters of a segment; the first that is no digit is an error. -/
def digitValues : Text → Except Malformed (List Nat)
  | [] => .ok []
  | c :: rest =>
      match digit? c with
      | none => .error (.digit c)
      | some value => (digitValues rest).map (value :: ·)

def decode (segment : Text) : Except Malformed (List Int) :=
  match digitValues segment with
  | .error error => .error error
  | .ok values =>
      match numbers? values with
      | none => .error (.truncated segment)
      | some numbers => .ok (numbers.map unfold)

end UrlRebase.Vlq
