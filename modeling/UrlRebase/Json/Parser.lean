import UrlRebase.Json.Basic

/-!
# Reading JSON

The reader follows the JSON grammar, with the numerals `NaN`, `Infinity` and `-Infinity`
besides.  Of members with one key the last value counts.  A string may not hold a
control character as it is, and two escapes that form a surrogate pair are one character.

A step gives a value and the rest of the text.  Arrays and objects may be nested up to a
limit; the first one beyond it ends the reading, whatever follows.  The number of steps is
bounded by a count that `parse` starts at the length of the text; every step takes at least
one character, so the count does not run out.
-/

namespace UrlRebase.Json

def isSpace (c : CodePoint) : Bool :=
  c = ' ' || c = '\t' || c = '\n' || c = '\r'

/-- Why a text is not read as a JSON value. -/
inductive ParseError where
  | malformed
  /-- Values are nested too deeply. -/
  | tooDeep
deriving DecidableEq, Repr

/-- How deeply arrays and objects may be nested. -/
def maxDepth : Nat := 985

def skipSpace (text : Text) : Text :=
  text.dropWhile isSpace

def word? (word text : Text) : Option Text :=
  if word.isPrefixOf text then some (text.drop word.length) else none

def hexDigit? (c : CodePoint) : Option Nat :=
  if '0' ≤ c ∧ c ≤ '9' then some (c.toNat - '0'.toNat)
  else if 'a' ≤ c ∧ c ≤ 'f' then some (c.toNat - 'a'.toNat + 10)
  else if 'A' ≤ c ∧ c ≤ 'F' then some (c.toNat - 'A'.toNat + 10)
  else none

def hexUnit? (a b c d : CodePoint) : Option Nat := do
  let a ← hexDigit? a
  let b ← hexDigit? b
  let c ← hexDigit? c
  let d ← hexDigit? d
  return ((a * 16 + b) * 16 + c) * 16 + d

def shortEscape? : CodePoint → Option CodePoint
  | '"' => some '"'
  | '\\' => some '\\'
  | '/' => some '/'
  | 'b' => some '\x08'
  | 'f' => some '\x0c'
  | 'n' => some '\n'
  | 'r' => some '\r'
  | 't' => some '\t'
  | _ => none

/-- The unit of the escape at the head of a text, if it completes a surrogate pair. -/
def partner? (unit : Nat) (text : Text) : Option Nat :=
  match text with
  | '\\' :: 'u' :: a :: b :: c :: d :: _ =>
      match hexUnit? a b c d with
      | some low =>
          if 0xD800 ≤ unit ∧ unit ≤ 0xDBFF ∧ 0xDC00 ≤ low ∧ low ≤ 0xDFFF then some low
          else none
      | none => none
  | _ => none

/-- The inside of a string up to its closing quotation mark, and the rest. -/
def stringBody? : Text → Option (Text × Text)
  | [] => none
  | '"' :: rest => some ([], rest)
  | '\\' :: 'u' :: a :: b :: c :: d :: rest =>
      match hexUnit? a b c d with
      | none => none
      | some unit =>
          match partner? unit rest with
          | some low =>
              let point := 0x10000 + (unit - 0xD800) * 0x400 + (low - 0xDC00)
              (stringBody? (rest.drop 6)).map fun (value, left) =>
                (CodePoint.ofNat point :: value, left)
          | none =>
              (stringBody? rest).map fun (value, left) => (CodePoint.ofNat unit :: value, left)
  | '\\' :: c :: rest =>
      match shortEscape? c with
      | none => none
      | some c => (stringBody? rest).map fun (value, left) => (c :: value, left)
  | c :: rest =>
      if c.toNat < 0x20 ∨ c = '\\' then none
      else (stringBody? rest).map fun (value, left) => (c :: value, left)
termination_by text => text.length
decreasing_by
  all_goals simp only [List.length_drop, List.length_cons]
  all_goals omega

def decimalValue (digits : Text) : Nat :=
  digits.foldl (fun value c => value * 10 + (c.toNat - '0'.toNat)) 0

def digits (text : Text) : Text × Text :=
  text.span CodePoint.isDigit

def fractionPart (text : Text) : Text × Text :=
  match text with
  | '.' :: rest =>
      match digits rest with
      | ([], _) => ([], text)
      | found => found
  | _ => ([], text)

/-- The exponent at the head of a text, if there is one, and the rest. -/
def exponentPart (text : Text) : Option Int × Text :=
  match text with
  | e :: rest =>
      if e = 'e' ∨ e = 'E' then
        let (negative, behind) :=
          match rest with
          | '-' :: behind => (true, behind)
          | '+' :: behind => (false, behind)
          | _ => (false, rest)
        match digits behind with
        | ([], _) => (none, text)
        | (found, left) =>
            let value : Int := decimalValue found
            (some (if negative then -value else value), left)
      else (none, text)
  | [] => (none, text)

/-- A number without its sign, and the rest. -/
def number? (negative : Bool) (text : Text) : Option (Json × Text) :=
  let (whole, behind) :=
    match text with
    | '0' :: rest => (['0'], rest)
    | _ => digits text
  if whole = [] then none
  else
    let (fraction, behind) := fractionPart behind
    let (exponent, behind) := exponentPart behind
    if fraction = [] ∧ exponent = none then
      let value : Int := decimalValue whole
      if Text.maxDigits < whole.length then none
      else some (.int (if negative then -value else value), behind)
    else
      let power := exponent.getD 0 - fraction.length
      some (.double (Double.ofDecimal negative (decimalValue (whole ++ fraction)) power), behind)

/-- A value that holds no other value, and the rest. -/
def scalar? (text : Text) : Option (Json × Text) :=
  match text with
  | '"' :: rest => (stringBody? rest).map fun (value, left) => (.string value, left)
  | '-' :: rest =>
      match word? "Infinity".text rest with
      | some left => some (.double (.infinite true), left)
      | none => number? true rest
  | _ =>
      match word? "null".text text, word? "true".text text, word? "false".text text,
        word? "NaN".text text, word? "Infinity".text text with
      | some left, _, _, _, _ => some (.null, left)
      | _, some left, _, _, _ => some (.bool true, left)
      | _, _, some left, _, _ => some (.bool false, left)
      | _, _, _, some left, _ => some (.double .nan, left)
      | _, _, _, _, some left => some (.double (.infinite false), left)
      | _, _, _, _, _ => number? false text

mutual

/-- A value at the head of a text that does not start with a space, and the rest.  `room`
says how many arrays and objects may still be opened inside one another. -/
def value (room : Nat) : Nat → Text → Except ParseError (Json × Text)
  | 0, _ => .error .malformed
  | count + 1, '[' :: rest =>
      if room = 0 then .error .tooDeep
      else
        match skipSpace rest with
        | ']' :: left => .ok (.array [], left)
        | behind =>
            (items (room - 1) count behind).map fun (items, left) => (.array items, left)
  | count + 1, '\x7b' :: rest =>
      if room = 0 then .error .tooDeep
      else
        match skipSpace rest with
        | '\x7d' :: left => .ok (.object [], left)
        | behind =>
            (members (room - 1) count behind).map fun (members, left) =>
              (.object (ofMembers members), left)
  | _ + 1, text => ((scalar? text).map .ok).getD (.error .malformed)

/-- The items of an array up to its closing bracket, and the rest. -/
def items (room : Nat) : Nat → Text → Except ParseError (List Json × Text)
  | 0, _ => .error .malformed
  | count + 1, text =>
      match value room count text with
      | .error error => .error error
      | .ok (first, rest) =>
          match skipSpace rest with
          | ']' :: left => .ok ([first], left)
          | ',' :: more =>
              (items room count (skipSpace more)).map fun (others, left) =>
                (first :: others, left)
          | _ => .error .malformed

/-- The members of an object up to its closing brace, and the rest. -/
def members (room : Nat) : Nat → Text → Except ParseError (List (Text × Json) × Text)
  | 0, _ => .error .malformed
  | count + 1, text =>
      match pair room count text with
      | .error error => .error error
      | .ok (first, rest) =>
          match skipSpace rest with
          | '\x7d' :: left => .ok ([first], left)
          | ',' :: more =>
              (members room count (skipSpace more)).map fun (others, left) =>
                (first :: others, left)
          | _ => .error .malformed

def pair (room : Nat) : Nat → Text → Except ParseError ((Text × Json) × Text)
  | 0, _ => .error .malformed
  | count + 1, '"' :: inside =>
      match stringBody? inside with
      | none => .error .malformed
      | some (key, behind) =>
          match skipSpace behind with
          | ':' :: rest =>
              (value room count (skipSpace rest)).map fun (value, left) => ((key, value), left)
          | _ => .error .malformed
  | _ + 1, _ => .error .malformed

end

/-- The value that a text spells, with nothing but spaces around it. -/
def parse (text : Text) : Except ParseError Json :=
  match value maxDepth (2 * text.length + 2) (skipSpace text) with
  | .error error => .error error
  | .ok (value, rest) => if skipSpace rest = [] then .ok value else .error .malformed

end UrlRebase.Json
