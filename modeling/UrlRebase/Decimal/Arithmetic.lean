import UrlRebase.Decimal.Binary

/-!
# Sums and products of doubles

Each operation gives the double nearest to the exact result, and doubles are compared by
their exact values.
-/

namespace UrlRebase.Double

def ofRational (num : Int) (den : Nat) : Double :=
  if num = 0 then .finite false 0 minExponent else ofFraction (num < 0) num.natAbs den

def negate : Double → Double
  | .finite negative mantissa exponent => .finite (!negative) mantissa exponent
  | .infinite negative => .infinite (!negative)
  | .nan => .nan

def add : Double → Double → Double
  | .finite s m e, .finite s' m' e' =>
      let (num, den) := fraction s m e
      let (num', den') := fraction s' m' e'
      ofRational (num * den' + num' * den) (den * den')
  | .infinite s, .infinite s' => if s = s' then .infinite s else .nan
  | .infinite s, .finite .. | .finite .., .infinite s => .infinite s
  | _, _ => .nan

def mul : Double → Double → Double
  | .finite s m e, .finite s' m' e' =>
      if m = 0 ∨ m' = 0 then .finite (s != s') 0 minExponent
      else
        let (num, den) := fraction false m e
        let (num', den') := fraction false m' e'
        ofFraction (s != s') (num * num').natAbs (den * den')
  | .infinite s, .finite s' m _ | .finite s m _, .infinite s' =>
      if m = 0 then .nan else .infinite (s != s')
  | .infinite s, .infinite s' => .infinite (s != s')
  | _, _ => .nan

/-- The double nearest to a positive integer, unless the integer is beyond all doubles. -/
def ofPos? (n : Nat) : Option Double :=
  match ofFraction false n 1 with
  | .infinite _ => none
  | value => some value

def ofInt (n : Int) : Double :=
  .finite (n < 0) n.natAbs 0

def le : Double → Double → Bool
  | .finite s m e, .finite s' m' e' =>
      let (num, den) := fraction s m e
      let (num', den') := fraction s' m' e'
      num * den' ≤ num' * den
  | .infinite negative, .infinite negative' => negative || !negative'
  | .infinite negative, .finite .. => negative
  | .finite .., .infinite negative => !negative
  | _, _ => false

end UrlRebase.Double
