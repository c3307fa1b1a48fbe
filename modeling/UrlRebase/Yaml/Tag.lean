import UrlRebase.Yaml.Timestamp

/-!
# Tags

A tag tells what kind of value a node is.  Where no tag is written, a plain scalar has the
tag of what it looks like.
-/

namespace UrlRebase.Yaml

/-- What kind of value a node is. -/
inductive Tag where
  | null
  | bool
  | int
  | double
  | string
  | bytes
  | timestamp
  | sequence
  | mapping
  | set
  /-- A list of pairs. -/
  | pairs
  /-- The key of members that a mapping takes over from others. -/
  | merge
  /-- The key of the value that stands for a mapping. -/
  | value
  | unknown
deriving DecidableEq, Repr

namespace Tag

def standardPrefix : Text := "tag:yaml.org,2002:".text

/-- The tags of values, by what they end with. -/
def names : List (Text × Tag) :=
  [("null", .null), ("bool", .bool), ("int", .int), ("float", .double), ("str", .string),
    ("binary", .bytes), ("timestamp", .timestamp), ("seq", .sequence), ("map", .mapping),
    ("set", .set), ("omap", .pairs), ("pairs", .pairs), ("merge", .merge),
    ("value", .value)].map fun (name, tag) => (name.text, tag)

def ofText (text : Text) : Tag :=
  ((names.find? fun entry => standardPrefix ++ entry.1 = text).map Prod.snd).getD .unknown

def nullWords : List Text :=
  ["", "~", "null", "Null", "NULL"].map String.text

def boolWords : List Text :=
  ["yes", "Yes", "YES", "no", "No", "NO", "true", "True", "TRUE", "false", "False", "FALSE",
    "on", "On", "ON", "off", "Off", "OFF"].map String.text

/-- A text without a sign at its start. -/
def unsigned : Text → Text
  | '-' :: rest | '+' :: rest => rest
  | text => text

def isDigitOrLine (c : CodePoint) : Bool :=
  c.isDigit || c = '_'

def isDigits : Text → Bool
  | c :: rest => c.isDigit && rest.all isDigitOrLine
  | [] => false

def isSixtieth : Text → Bool
  | [c] => c.isDigit
  | [c, d] => '0' ≤ c && c ≤ '5' && d.isDigit
  | _ => false

/-- Whether a text without a sign is a number in base sixty, of which the first digit is in a
class. -/
def isBaseSixty (isFirst : Text → Bool) (text : Text) : Bool :=
  match Text.fields ':' text with
  | first :: other :: others => isFirst first && (other :: others).all isSixtieth
  | _ => false

/-- Whether a text is an exponent with its sign, or nothing. -/
def isExponent : Text → Bool
  | [] => true
  | c :: sign :: digit :: digits =>
      (c = 'e' || c = 'E') && (sign = '-' || sign = '+') && (digit :: digits).all CodePoint.isDigit
  | _ => false

def isFraction (text : Text) : Bool :=
  isExponent (text.dropWhile isDigitOrLine)

def infinityWords : List Text :=
  [".inf", ".Inf", ".INF"].map String.text

def nanWords : List Text :=
  [".nan", ".NaN", ".NAN"].map String.text

def isDouble (text : Text) : Bool :=
  let number := unsigned text
  let (whole, behind) := Text.cut '.' number
  infinityWords.contains number || nanWords.contains text ||
    (match text with
      | '.' :: digit :: rest => digit.isDigit && isFraction rest
      | _ => false) ||
    (behind ≠ [] &&
      ((isDigits whole && isFraction (behind.drop 1)) ||
        (isBaseSixty isDigits whole && (behind.drop 1).all isDigitOrLine)))

def isPositive : Text → Bool
  | c :: rest => '1' ≤ c && c ≤ '9' && rest.all isDigitOrLine
  | [] => false

/-- Whether a text is not empty and all its characters are underscores or in a class. -/
def isRun (isMember : CodePoint → Bool) (text : Text) : Bool :=
  text ≠ [] && text.all fun c => isMember c || c = '_'

def isInteger (text : Text) : Bool :=
  let number := unsigned text
  (match number with
    | '0' :: rest =>
        rest = [] || isRun (fun c => '0' ≤ c && c ≤ '7') rest ||
          (match rest with
            | 'b' :: rest => isRun (fun c => c = '0' || c = '1') rest
            | 'x' :: rest => isRun
                (fun c => c.isDigit || ('a' ≤ c && c ≤ 'f') || ('A' ≤ c && c ≤ 'F')) rest
            | _ => false)
    | number => isPositive number) ||
    isBaseSixty isPositive number

def isTimestamp (text : Text) : Bool :=
  match Timestamp.ofText? text with
  | some stamp => stamp.isFull || stamp.time.isSome
  | none => false

/-- A text without a line break at its end. -/
def dropLastBreak (text : Text) : Text :=
  if text.getLast? = some (.char '\n') then text.dropLast else text

/-- The tag of a plain scalar.  A line break at its end does not count. -/
def ofPlain (text : Text) : Tag :=
  let core := dropLastBreak text
  if core = [] ∧ text ≠ [] then .string
  else if boolWords.contains core then .bool
  else if isDouble core then .double
  else if isInteger core then .int
  else if core = "<<".text then .merge
  else if nullWords.contains core then .null
  else if isTimestamp core then .timestamp
  else if core = "=".text then .value
  else if core = "!".text ∨ core = "&".text ∨ core = "*".text then .unknown
  else .string

end Tag

end UrlRebase.Yaml
