import UrlRebase.Text.Basic

/-!
# Base64

Bytes as text in base 64, three bytes in four digits.  `encode` writes lines of seventy-six
digits, each with a line break behind it.  `decode?` passes over all characters that are no
digits, ends at a padding that completes a group, and fails only if the digits before do not
fill whole groups.
-/

namespace UrlRebase.Base64

/-- The digits in order of their values. -/
def alphabet : Text :=
  "ABCDEFGHIJKLMNOPQRSTUVWXYZabcdefghijklmnopqrstuvwxyz0123456789+/".text

def digit (value : Nat) : CodePoint :=
  alphabet.getD value 'A'

def value? (c : CodePoint) : Option Nat :=
  alphabet.idxOf? c

/-- The four characters of up to three bytes. -/
def group : List UInt8 → Text
  | a :: b :: c :: _ =>
      let n := (a.toNat * 256 + b.toNat) * 256 + c.toNat
      [digit (n / 262144), digit (n / 4096 % 64), digit (n / 64 % 64), digit (n % 64)]
  | [a, b] =>
      let n := (a.toNat * 256 + b.toNat) * 256
      [digit (n / 262144), digit (n / 4096 % 64), digit (n / 64 % 64), '=']
  | [a] =>
      let n := a.toNat * 65536
      [digit (n / 262144), digit (n / 4096 % 64), '=', '=']
  | [] => []

def digits : List UInt8 → Text
  | [] => []
  | a :: rest => group (a :: rest.take 2) ++ digits (rest.drop 2)
termination_by bytes => bytes.length
decreasing_by
  simp only [List.length_drop, List.length_cons]
  omega

/-- The lines of a text, each of at most seventy-six characters. -/
def lines : Text → Text
  | [] => []
  | c :: rest => (c :: rest.take 75) ++ "\n".text ++ lines (rest.drop 75)
termination_by text => text.length
decreasing_by
  simp only [List.length_drop, List.length_cons]
  omega

def encode (bytes : List UInt8) : Text :=
  lines (digits bytes)

/-- Reads digits behind some that belong to a group that is not full, of which there were
`place`, and behind some paddings; `left` are the bits of the group that no byte has yet. -/
def decodeFrom (place left pads : Nat) : Text → Option (List UInt8)
  | [] => if place = 0 then some [] else none
  | c :: rest =>
      if c = '=' then
        if 2 ≤ place ∧ 4 ≤ place + pads + 1 then some []
        else decodeFrom place left (if 2 ≤ place then pads + 1 else pads) rest
      else
        match value? c with
        | none => decodeFrom place left pads rest
        | some value =>
            let byte (n : Nat) : UInt8 := (n % 256).toUInt8
            match place with
            | 0 => decodeFrom 1 value 0 rest
            | 1 => (decodeFrom 2 (value % 16) 0 rest).map (byte (left * 4 + value / 16) :: ·)
            | 2 => (decodeFrom 3 (value % 4) 0 rest).map (byte (left * 16 + value / 4) :: ·)
            | _ => (decodeFrom 0 0 0 rest).map (byte (left * 64 + value) :: ·)

def decode? (text : Text) : Option (List UInt8) :=
  decodeFrom 0 0 0 text

end UrlRebase.Base64
