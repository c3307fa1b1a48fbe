import UrlRebase.Decimal.Arithmetic
import UrlRebase.Text.Digit
import UrlRebase.Text.Hex
import UrlRebase.Text.Lower
import UrlRebase.Yaml.Fault

/-!
# Numbers as text

Integers are written in base two, eight, ten or sixteen, or in base sixty with colons between
the digits; doubles with a point, with an exponent, or in base sixty.  Underscores do not
count.
-/

namespace UrlRebase.Yaml.Number

def isSpace (c : CodePoint) : Bool :=
  c = ' ' || ('\t' ≤ c && c ≤ '\r') ||
    [0x85, 0xA0, 0x1680, 0x2028, 0x2029, 0x202F, 0x205F, 0x3000].contains c.toNat ||
    (0x2000 ≤ c.toNat && c.toNat ≤ 0x200A)

def trimmed (text : Text) : Text :=
  Text.trimRight isSpace (text.dropWhile isSpace)

def signed : Text → Bool × Text
  | '-' :: rest => (true, rest)
  | '+' :: rest => (false, rest)
  | text => (false, text)

def digit? (c : CodePoint) : Option Nat :=
  if Text.isHex c then Text.hexValue? c else Text.digitValue? c

/-- The letter that tells a base behind a zero. -/
def baseLetter? (base : Nat) : Option CodePoint :=
  ([(2, 'b'), (8, 'o'), (16, 'x')] : List (Nat × CodePoint)).lookup base

/-- A text without a zero and the letter of a base. -/
def dropBase (base : Nat) : Text → Text
  | '0' :: c :: rest => if baseLetter? base = some c.toLower then rest else '0' :: c :: rest
  | text => text

def digits (base : Nat) (text : Text) : Text :=
  text.takeWhile fun c => (digit? c).any (· < base)

def ofDigits (base : Nat) (digits : Text) : Nat :=
  digits.foldl (fun n c => n * base + (digit? c).getD 0) 0

def integerIn (base : Nat) (text : Text) : Except Fault Int :=
  let (negative, number) := signed (trimmed text)
  let number := dropBase base number
  let digits := digits base number
  if base = 10 ∧ Text.maxDigits < digits.length then .error (.longInteger digits.length)
  else if digits = [] ∨ digits.length < number.length then .error (.integer base text)
  else
    let size : Int := ofDigits base digits
    .ok (if negative then -size else size)

def inBaseSixty (digits : List Int) : Int :=
  digits.foldl (fun n digit => n * 60 + digit) 0

/-- The integer that a text without a sign spells; its start tells the base. -/
def unsignedInteger (text : Text) : Except Fault Int :=
  match text with
  | ['0'] => .ok 0
  | '0' :: 'b' :: rest => integerIn 2 rest
  | '0' :: 'x' :: rest => integerIn 16 rest
  | '0' :: _ => integerIn 8 text
  | [] => .error .emptyNumber
  | _ =>
      if text.contains ':' then ((Text.fields ':' text).mapM (integerIn 10)).map inBaseSixty
      else integerIn 10 text

def integer (text : Text) : Except Fault Int :=
  let (negative, rest) := signed (text.filter (· ≠ .char '_'))
  (unsignedInteger rest).map fun value => if negative then -value else value

def exponent? : Text → Option Int
  | [] => some 0
  | c :: rest =>
      if c = 'e' then
        let (negative, number) := signed rest
        let digits := digits 10 number
        if digits = [] ∨ digits.length < number.length then none
        else
          let size : Int := ofDigits 10 digits
          some (if negative then -size else size)
      else none

/-- The double that a decimal without a sign spells. -/
def unsignedDecimal? (negative : Bool) (text : Text) : Option Double := do
  let whole := digits 10 text
  let (fraction, rest) : Text × Text :=
    match text.drop whole.length with
    | '.' :: rest => (digits 10 rest, rest.drop (digits 10 rest).length)
    | rest => ([], rest)
  if whole = [] ∧ fraction = [] then none
  let exponent ← exponent? rest
  return .ofDecimal negative (ofDigits 10 (whole ++ fraction)) (exponent - fraction.length)

def decimal (text : Text) : Except Fault Double :=
  let (negative, number) := signed (trimmed text)
  if number = "inf".text ∨ number = "infinity".text then .ok (.infinite negative)
  else if number = "nan".text then .ok .nan
  else
    match unsignedDecimal? negative number with
    | none => .error (.double text)
    | some value => .ok value

/-- Adds doubles to a sum, each times sixty times the factor of the one before it.  The
factors have to be near doubles themselves. -/
def addInBaseSixty (factor : Nat) (sum : Double) : List Double → Except Fault Double
  | [] => .ok sum
  | digit :: rest =>
      match Double.ofPos? factor with
      | none => .error .hugeNumber
      | some weight => addInBaseSixty (factor * 60) (sum.add (digit.mul weight)) rest

/-- The sum of doubles, the last of which counts ones, the one before it sixties, and so on. -/
def doubleInBaseSixty (digits : List Double) : Except Fault Double :=
  addInBaseSixty 1 (.finite false 0 Double.minExponent) digits.reverse

/-- The double that a text without a sign spells. -/
def unsignedDouble (text : Text) : Except Fault Double :=
  if text = ".inf".text then .ok (.infinite false)
  else if text = ".nan".text then .ok .nan
  else if text.contains ':' then
    ((Text.fields ':' text).mapM decimal) >>= doubleInBaseSixty
  else decimal text

def double (text : Text) : Except Fault Double :=
  match Text.lower (text.filter (· ≠ .char '_')) with
  | [] => .error .emptyNumber
  | text =>
      let (negative, rest) := signed text
      (unsignedDouble rest).map fun value => if negative then value.negate else value

end UrlRebase.Yaml.Number
