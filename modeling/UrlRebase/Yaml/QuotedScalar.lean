import UrlRebase.Text.Hex
import UrlRebase.Yaml.Cursor
import UrlRebase.Yaml.Fault

/-!
# Quoted scalars

Between single marks, a mark is written twice.  Between double marks, a backslash starts an
escape: a letter for a character, a number in hexadecimal digits, or a line break, which is
then dropped.  Line breaks are folded as in plain scalars, and the blanks around them dropped.
-/

namespace UrlRebase.Yaml.QuotedScalar

def letters : List (CodePoint × CodePoint) :=
  [('0', '\x00'), ('a', '\x07'), ('b', '\x08'), ('t', '\t'), ('\t', '\t'), ('n', '\n'),
    ('v', '\x0b'), ('f', '\x0c'), ('r', '\r'), ('e', '\x1b'), (' ', ' '), ('"', '"'),
    ('\\', '\\'), ('/', '/'), ('N', '\u0085'), ('_', '\u00a0'), ('L', '\u2028'),
    ('P', '\u2029')]

def widths : List (CodePoint × Nat) :=
  [('x', 2), ('u', 4), ('U', 8)]

def hexNumber? (width : Nat) (text : Text) : Option Nat :=
  let digits := text.take width
  if digits.length = width ∧ digits.all Text.isHex then some (Text.hexNumber digits) else none

def character (n : Nat) : Except Fault CodePoint :=
  match CodePoint.ofNat? n with
  | some c => .ok c
  | none => .error (if n < 0x80000000 then .codePoint else .hugeCodePoint)

/-- Empty lines at the start of a line: their breaks, and the line behind them. -/
def emptyLines (text : Text) : Except Fault (Text × Text) :=
  if partsDocuments text then .error (.before (text.drop 3))
  else
    match _h : text.dropWhile isBlank with
    | [] => .ok ([], text)
    | c :: rest =>
        if isBreak c then do
          let (breaks, line) ← emptyLines rest
          return (readBreak c :: breaks, line)
        else .ok ([], text)
termination_by text.length
decreasing_by
  have := (List.dropWhile_sublist (l := text) isBlank).length_le
  rw [_h, List.length_cons] at this
  omega

/-- A fault in a line, of which three characters are looked at before anything else. -/
def faultIn (line : Text) (fault : Fault) : Fault :=
  if line.length < 3 then .unended else fault

/-- Reads on behind a line break, the empty lines after it, and the blanks at the start of the
next line.  Gives the breaks of the empty lines and what is read behind them. -/
def readLine (read : Text → Except Fault (Text × Text)) (text : Text) :
    Except Fault (Text × Text × Text) := do
  let (breaks, line) ← emptyLines text
  let behind ← (read (line.dropWhile isBlank)).mapError (faultIn line)
  return (breaks, behind)

def escape : Text → Except Fault (CodePoint × Text)
  | [] => .error .unended
  | c :: rest =>
      match letters.lookup c, widths.lookup c with
      | some value, _ => .ok (value, rest)
      | none, some width =>
          match hexNumber? width rest with
          | none => .error (.before ((rest.take width).dropWhile Text.isHex))
          | some n => (character n).map fun c => (c, rest.drop width)
      | none, none => .error .token

/-- Reads up to the mark behind the scalar: the text of the scalar, and the text behind the
mark.  The bound is on the number of characters. -/
def body (mark : CodePoint) : Nat → Text → Except Fault (Text × Text)
  | 0, _ | _, [] => .error .unended
  | bound + 1, c :: rest =>
      if c = mark then
        match mark, rest with
        | '\'', '\'' :: rest => do
            let (text, left) ← body mark bound rest
            return ('\'' :: text, left)
        | _, rest => .ok ([], rest)
      else if c = '\\' ∧ mark = '"' then
        if rest.head?.any isBreak then do
          let (breaks, more, left) ← readLine (body mark bound) (rest.drop 1)
          return (breaks ++ more, left)
        else do
          let (value, rest) ← escape rest
          let (more, left) ← body mark bound rest
          return (value :: more, left)
      else if isBlank c ∨ isBreak c then
        match (c :: rest).dropWhile isBlank with
        | [] => .error .unended
        | d :: behind =>
            if isBreak d then do
              let (breaks, more, left) ← readLine (body mark bound) behind
              return (foldedBreaks d breaks ++ more, left)
            else do
              let (more, left) ← body mark bound (d :: behind)
              return ((c :: rest).takeWhile isBlank ++ more, left)
      else do
        let (text, left) ← body mark bound rest
        return (c :: text, left)

def read (mark : CodePoint) (cursor : Cursor) : Except Fault (Text × Cursor) := do
  let inside := cursor.rest.drop 1
  let (text, left) ← body mark (inside.length + 1) inside
  return (text, cursor.moveTo left)

end UrlRebase.Yaml.QuotedScalar
