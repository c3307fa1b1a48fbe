import UrlRebase.Text.Basic

/-!
# Places in a configuration file

A cursor is the rest of a text with the place where it starts: the number of characters
before it, and its line and column.  A byte order mark takes no column.
-/

namespace UrlRebase.Yaml

def isBreak (c : CodePoint) : Bool :=
  c = '\n' || c = '\u0085' || c = '\u2028' || c = '\u2029'

def isBlank (c : CodePoint) : Bool :=
  c = ' ' || c = '\t'

def isLineEnd : Option CodePoint → Bool
  | none => true
  | some c => isBreak c

/-- Whether a text ends, or goes on with a blank or a line break. -/
def isGap : Option CodePoint → Bool
  | none => true
  | some c => isBlank c || isBreak c

def isSpaceOrEnd : Option CodePoint → Bool
  | none => true
  | some c => c = ' ' || isBreak c

/-- The break that a line break is read as. -/
def readBreak (c : CodePoint) : CodePoint :=
  if c = '\u2028' ∨ c = '\u2029' then c else '\n'

/-- What a line break inside a scalar and those behind it are read as: a single one is a space,
and of several the first is dropped. -/
def foldedBreaks (first : CodePoint) (others : Text) : Text :=
  if readBreak first ≠ '\n' then readBreak first :: others
  else if others = [] then [' ']
  else others

/-- Whether a line starts with three equal signs that stand alone. -/
def startsWithSigns (sign : CodePoint) (text : Text) : Bool :=
  text.take 3 = [sign, sign, sign] && isGap text[3]?

/-- Whether a line parts documents. -/
def partsDocuments (text : Text) : Bool :=
  startsWithSigns '-' text || startsWithSigns '.' text

/-- The mark that a text may start with to tell its encoding. -/
def byteOrderMark : CodePoint := '\uFEFF'

/-- The rest of a text, and where it starts. -/
structure Cursor where
  rest : Text
  index : Nat := 0
  line : Nat := 0
  column : Nat := 0
deriving DecidableEq, Repr

namespace Cursor

def next (cursor : Cursor) : Cursor :=
  match cursor.rest with
  | [] => cursor
  | c :: rest =>
      { rest
        index := cursor.index + 1
        line := if isBreak c then cursor.line + 1 else cursor.line
        column :=
          if isBreak c then 0 else if c = byteOrderMark then cursor.column else cursor.column + 1 }

def skip (cursor : Cursor) : Nat → Cursor
  | 0 => cursor
  | n + 1 => cursor.next.skip n

def moveTo (cursor : Cursor) (rest : Text) : Cursor :=
  cursor.skip (cursor.rest.length - rest.length)

theorem next_rest (cursor : Cursor) : cursor.next.rest = cursor.rest.tail := by
  cases h : cursor.rest <;> simp [next, h]

theorem skip_rest (cursor : Cursor) (n : Nat) : (cursor.skip n).rest = cursor.rest.drop n := by
  induction n generalizing cursor with
  | zero => rfl
  | succ n ih => rw [skip, ih, next_rest, List.drop_tail]

end Cursor

/-- A line behind its leading spaces, up to and without a comment. -/
def skipComment (text : Text) : Text :=
  match text.dropWhile (fun c => c = .char ' ') with
  | '#' :: rest => rest.dropWhile fun c => !isBreak c
  | rest => rest

end UrlRebase.Yaml
