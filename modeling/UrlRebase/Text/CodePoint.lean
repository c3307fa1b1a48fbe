/-!
# Code points

A code point is a character, or one half of a surrogate pair without the other half.  A lone
half is no character, and no encoding has bytes for it, but an escape can spell one: a text
carries it along to where it is written as an escape again.

A character stands for its code point wherever one is expected.
-/

namespace UrlRebase

/-- A character or a lone half of a surrogate pair. -/
inductive CodePoint where
  | char (c : Char)
  /-- The half whose number lies this far above that of the first one. -/
  | half (offset : Fin 0x800)
deriving DecidableEq, Repr, Inhabited

namespace CodePoint

instance : Coe Char CodePoint := ⟨.char⟩

/-- Whether a number is that of a half of a surrogate pair. -/
def isHalf (n : Nat) : Bool :=
  0xD800 ≤ n && n ≤ 0xDFFF

def toNat : CodePoint → Nat
  | .char c => c.toNat
  | .half offset => 0xD800 + offset

def ofNat? (n : Nat) : Option CodePoint :=
  if isHalf n then some (.half (Fin.ofNat 0x800 (n - 0xD800)))
  else if n.isValidChar then some (Char.ofNat n)
  else none

/-- The code point with a number; the replacement character if there is none. -/
def ofNat (n : Nat) : CodePoint :=
  (ofNat? n).getD '\uFFFD'

def char? : CodePoint → Option Char
  | .char c => some c
  | .half _ => none

theorem toNat_char (c : Char) : (CodePoint.char c).toNat = c.toNat := rfl

theorem ofNat_toNat (c : CodePoint) : ofNat c.toNat = c := by
  unfold ofNat ofNat?
  cases c with
  | half offset =>
      have hhalf : isHalf (0xD800 + offset.val) = true := by
        simp only [isHalf, Bool.and_eq_true, decide_eq_true_eq]
        omega
      simp only [toNat, hhalf, if_true, Option.getD_some, Nat.add_sub_cancel_left]
      exact congrArg half (Fin.ofNat_val_eq_self offset)
  | char c =>
      have hvalid : c.toNat.isValidChar := c.valid
      have hhalf : ¬isHalf c.toNat = true := by
        simp only [isHalf, Bool.and_eq_true, decide_eq_true_eq]
        unfold Nat.isValidChar at hvalid
        omega
      simp only [toNat, if_neg hhalf, if_pos hvalid, Option.getD_some, Char.ofNat_toNat]

/-- Code points are ordered by their numbers. -/
instance : LE CodePoint := ⟨fun c d => c.toNat ≤ d.toNat⟩

instance (c d : CodePoint) : Decidable (c ≤ d) :=
  inferInstanceAs (Decidable (c.toNat ≤ d.toNat))

def isDigit : CodePoint → Bool
  | .char c => c.isDigit
  | .half _ => false

def isAlpha : CodePoint → Bool
  | .char c => c.isAlpha
  | .half _ => false

def isAlphanum : CodePoint → Bool
  | .char c => c.isAlphanum
  | .half _ => false

/-- The small letter of a capital letter of ASCII; every other code point is kept. -/
def toLower : CodePoint → CodePoint
  | .char c => c.toLower
  | .half offset => .half offset

/-- The capital letter of a small letter of ASCII; every other code point is kept. -/
def toUpper : CodePoint → CodePoint
  | .char c => c.toUpper
  | .half offset => .half offset

end CodePoint

end UrlRebase
