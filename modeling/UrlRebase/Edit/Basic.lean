import UrlRebase.Reference.Token

/-!
# Edits

An edit replaces the payload of a token.  Splicing edits into a text replaces the
payloads and keeps everything else.
-/

namespace UrlRebase

/-- A token and the text that replaces its payload. -/
structure Edit where
  token : Token
  text : Text
deriving DecidableEq, Repr

namespace Edit

/-- By how much the edit lengthens its line. -/
def delta (edit : Edit) : Int :=
  (edit.text.length : Int) - edit.token.raw.length

/-- The text from an offset on with the edits made, which lie behind the offset in order. -/
def spliceFrom (text : Text) (offset : Nat) : List Edit → Text
  | [] => text.drop offset
  | edit :: rest =>
      (text.drop offset).take (edit.token.payloadStart - offset) ++ edit.text ++
        spliceFrom text edit.token.payloadFinish rest

def splice (text : Text) (edits : List Edit) : Text :=
  spliceFrom text 0 edits

/-- Moves a column by the edits of its line, given by their order along the line.  A
column inside a payload stays inside the text that replaces the payload. -/
def shiftAlong (column shifted : Int) : List Edit → Int
  | [] => shifted
  | edit :: rest =>
      let start : Int := edit.token.payloadColumn
      if edit.token.payloadFinishColumn ≤ column then
        shiftAlong column (shifted + edit.delta) rest
      else if start < column then
        let inside := column - start
        shifted - inside + min inside edit.text.length
      else shifted

/-- The edits of a line in order along it, in whatever order they are given. -/
def alongLine (edits : List Edit) (line : Int) : List Edit :=
  (edits.filter fun edit => edit.token.place.line = line).mergeSort fun edit edit' =>
    edit.token.place.column ≤ edit'.token.place.column

/-- The column at which the character of a column of the text stands after the edits. -/
def shift (edits : List Edit) (line column : Int) : Int :=
  shiftAlong column column (alongLine edits line)

end Edit

end UrlRebase
