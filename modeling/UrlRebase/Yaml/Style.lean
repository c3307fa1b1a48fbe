import UrlRebase.Yaml.Cursor
import UrlRebase.Yaml.Tag

/-!
# How a scalar is written

A scalar is written without marks if it would be read back as what it is.  Otherwise it gets
single marks, and double ones if it holds characters that only escapes can tell.
-/

namespace UrlRebase.Yaml

/-- The form of a scalar. -/
inductive Style where
  | plain
  | single
  | double
  /-- Indented lines behind a bar. -/
  | block
deriving DecidableEq, Repr

namespace Style

/-- Whether a text ends, or goes on with a blank, a line break or nothing that is seen. -/
def isWhite : Option CodePoint → Bool
  | some c => isGap (some c) || c = '\x00' || c = '\r'
  | none => true

def isSign (c : CodePoint) : Bool :=
  "#,[]\x7b\x7d&*!|>'\"%@\x60".text.contains c

/-- Whether a colon would end a key, or a hash sign start a comment, behind a character. -/
def hasInnerSign : Option CodePoint → Text → Bool
  | _, [] => false
  | before, c :: rest =>
      (c = ':' && isWhite rest.head?) || (c = '#' && isWhite before) ||
        hasInnerSign (some c) rest

def hasSign : Text → Bool
  | [] => false
  | c :: rest =>
      "---".text.isPrefixOf (c :: rest) || "...".text.isPrefixOf (c :: rest) ||
        isSign c || ((c = '?' || c = ':' || c = '-') && isWhite rest.head?) ||
        hasInnerSign (some c) rest

def isOrdinary (c : CodePoint) : Bool :=
  c = '\n' || (' ' ≤ c && c ≤ '~')

def isMultiline (text : Text) : Bool :=
  text.any isBreak

/-- Whether a space stands beside a line break, in one of two orders. -/
def hasBeside (first second : CodePoint) : Text → Bool
  | a :: b :: rest => (a = first && b = second) || hasBeside first second (b :: rest)
  | _ => false

def hasBlankEdge (text : Text) : Bool :=
  let isEdge (c : Option CodePoint) : Bool := c = some (.char ' ') || c = some (.char '\n')
  isEdge text.head? || isEdge text.getLast?

def allowsPlain (text : Text) : Bool :=
  text.all isOrdinary && !hasBlankEdge text && !isMultiline text && !hasSign text

def allowsSingle (text : Text) : Bool :=
  text.all isOrdinary && !hasBeside '\n' ' ' text && !hasBeside ' ' '\n' text

def ofScalar (tag : Tag) (text : Text) (isKey : Bool) : Style :=
  if tag = .bytes then if isKey ∨ text = [] then .double else .block
  else if Tag.ofPlain text = tag ∧ allowsPlain text ∧ !(isKey ∧ text = []) then .plain
  else if allowsSingle text ∧ !(isKey ∧ isMultiline text) then .single
  else .double

end Style

end UrlRebase.Yaml
