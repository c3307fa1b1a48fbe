import UrlRebase.Text.Basic

/-!
# Binary floating-point numbers

A double is a sign, a mantissa below `2^53` and a binary exponent, or an infinity, or no
number.  Reading a decimal numeral rounds it to the nearest double, ties to the even
mantissa; `shortest` gives the fewest decimal digits that read back as the same double.
Both work on natural numbers alone.
-/

namespace UrlRebase

/-- A double-precision number. -/
inductive Double where
  /-- The number `mantissa * 2 ^ exponent`, negated if so marked; zero has a sign too. -/
  | finite (negative : Bool) (mantissa : Nat) (exponent : Int)
  | infinite (negative : Bool)
  | nan
deriving DecidableEq, Repr, Inhabited

namespace Double

/-- The quotient rounded to the nearest natural number, a half to the even neighbour. -/
def roundDiv (num den : Nat) : Nat :=
  let quotient := num / den
  let twice := 2 * (num % den)
  if twice < den then quotient
  else if den < twice then quotient + 1
  else if quotient % 2 = 0 then quotient else quotient + 1

/-- `num / den / 2 ^ exponent` as a fraction of natural numbers. -/
def scaled (num den : Nat) (exponent : Int) : Nat × Nat :=
  if exponent < 0 then (num * Nat.pow 2 exponent.natAbs, den)
  else (num, den * Nat.pow 2 exponent.natAbs)

def minExponent : Int := -1074

/-- The greatest exponent of a double. -/
def maxExponent : Int := 971

def ofFraction (negative : Bool) (num den : Nat) : Double :=
  let guess : Int := (num.log2 : Int) - den.log2 - 52
  let (n, d) := scaled num den guess
  let exponent := if n / d < Nat.pow 2 52 then guess - 1 else guess
  let exponent := max exponent minExponent
  let (n, d) := scaled num den exponent
  let mantissa := roundDiv n d
  let (mantissa, exponent) :=
    if mantissa = Nat.pow 2 53 then (Nat.pow 2 52, exponent + 1) else (mantissa, exponent)
  if maxExponent < exponent then .infinite negative
  else .finite negative mantissa exponent

/-- The double nearest to `digits * 10 ^ power`.  Powers far outside the range of doubles
are decided by the number of digits, without computing them. -/
def ofDecimal (negative : Bool) (digits : Nat) (power : Int) : Double :=
  let size := (Nat.toDigits 10 digits).length + power
  if digits = 0 ∨ size < -330 then .finite negative 0 minExponent
  else if 320 < size then .infinite negative
  else if power < 0 then ofFraction negative digits (Nat.pow 10 power.natAbs)
  else ofFraction negative (digits * Nat.pow 10 power.natAbs) 1

def readsBack (mantissa : Nat) (exponent : Int) (digits : Nat) (power : Int) : Bool :=
  ofDecimal false digits power = .finite false mantissa exponent

/-- The decimal with the given last place that is nearest to a fraction, or else its other
neighbour, if one of them reads back as the double. -/
def candidate? (mantissa : Nat) (exponent : Int) (num den : Nat) (power : Int) :
    Option (Nat × Int) :=
  let num := if power < 0 then num * Nat.pow 10 power.natAbs else num
  let den := if power < 0 then den else den * Nat.pow 10 power.natAbs
  let nearest := roundDiv num den
  let other := if nearest = num / den then nearest + 1 else nearest - 1
  [nearest, other].findSome? fun digits =>
    if readsBack mantissa exponent digits power then some (digits, power) else none

/-- The decimal numeral with the fewest digits that reads back as a positive double, as
digits and a power of ten. -/
def shortest (mantissa : Nat) (exponent : Int) : Nat × Int :=
  let num := if exponent < 0 then mantissa else mantissa * Nat.pow 2 exponent.natAbs
  let den := if exponent < 0 then Nat.pow 2 exponent.natAbs else 1
  -- The place of the leading digit: the number lies in `10 ^ place ≤ x < 10 ^ (place + 1)`.
  let whole : Int := (Nat.toDigits 10 (num / den)).length - 1
  let below : Int := -((Nat.toDigits 10 (den / num)).length : Int)
  let place : Int := if den ≤ num then whole else below
  let powers := (List.range 19).map fun (n : Nat) => place - n
  match powers.findSome? (candidate? mantissa exponent num den) with
  | some decimal => decimal
  | none => (mantissa, exponent)

/-- The value of a finite double as a fraction with its sign: numerator and denominator. -/
def fraction (negative : Bool) (mantissa : Nat) (exponent : Int) : Int × Nat :=
  let num : Nat := if exponent < 0 then mantissa else mantissa * Nat.pow 2 exponent.natAbs
  let den : Nat := if exponent < 0 then Nat.pow 2 exponent.natAbs else 1
  (if negative then -(num : Int) else num, den)

def isZero : Double → Bool
  | .finite _ mantissa _ => mantissa = 0
  | _ => false

/-- Whether two doubles are equal as numbers, as the two zeros are, or both no number. -/
def same : Double → Double → Bool
  | .finite s m e, .finite s' m' e' =>
      let (num, den) := fraction s m e
      let (num', den') := fraction s' m' e'
      num * den' = num' * den
  | .infinite s, .infinite s' => s = s'
  | .nan, .nan => true
  | _, _ => false

def sameInt : Double → Int → Bool
  | .finite s m e, n =>
      let (num, den) := fraction s m e
      num = n * den
  | _, _ => false

end Double

namespace Text

/-- A positive decimal: positional from `0.0001` up to below `10^16`, with at least one
digit behind the point, and otherwise with an exponent of at least two digits. -/
def ofDecimal (digits : Nat) (power : Int) : Text :=
  let shown := trimRight (· = .char '0') (ofNat digits)
  let place : Int := (ofNat digits).length + power
  if -4 < place ∧ place ≤ 16 then
    if place ≤ 0 then
      '0' :: '.' :: (List.replicate place.natAbs ('0' : CodePoint) ++ shown)
    else
      let whole := shown.take place.toNat
      let zeros := List.replicate (place.toNat - shown.length) ('0' : CodePoint)
      let behind := shown.drop place.toNat
      whole ++ zeros ++ ".".text ++ (if behind = [] then "0".text else behind)
  else
    let exponent := place - 1
    let sign : CodePoint := if exponent < 0 then '-' else '+'
    let size := ofNat exponent.natAbs
    let point : Text := if shown.length ≤ 1 then [] else '.' :: shown.drop 1
    shown.take 1 ++ point ++ "e".text ++
      sign :: (List.replicate (2 - size.length) ('0' : CodePoint) ++ size)

end Text

end UrlRebase
