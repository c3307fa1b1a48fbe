import UrlRebase.Text.Basic

/-!
# Places in a text

A place is a line and a column, both counted from zero.  Walking over a text moves a
place: a newline opens the next line, and every other character moves one column on.
A carriage return is an ordinary character of its line.
-/

namespace UrlRebase

/-- A line and a column, counted from zero. -/
structure Place where
  line : Nat
  column : Nat
deriving DecidableEq, Repr

namespace Place

/-- The first place of a text. -/
def start : Place := ⟨0, 0⟩

def step (place : Place) (c : CodePoint) : Place :=
  if c = '\n' then ⟨place.line + 1, 0⟩ else ⟨place.line, place.column + 1⟩

def after (place : Place) (text : Text) : Place :=
  text.foldl step place

@[simp] theorem after_nil (place : Place) : place.after [] = place := rfl

@[simp] theorem after_cons (place : Place) (c : CodePoint) (text : Text) :
    place.after (c :: text) = (place.step c).after text := rfl

theorem after_append (place : Place) (left right : Text) :
    place.after (left ++ right) = (place.after left).after right :=
  List.foldl_append

end Place

namespace Text

/-- The number of lines, which is one more than the number of newlines. -/
def lineCount (text : Text) : Nat :=
  text.count (.char '\n') + 1

/-- The place of an offset; an offset beyond the end counts on along the last line. -/
def placeOf (text : Text) (offset : Nat) : Place :=
  let place := Place.start.after (text.take offset)
  { place with column := place.column + (offset - text.length) }

/-- The offset of the first character of the last line. -/
def lastLine (text : Text) : Nat :=
  text.length - (Place.start.after text).column

/-- The line and the column of an offset that may lie before the text.  Such an offset is on
the line before the first one, and its column counts from the start of the last line. -/
def lineAndColumn (text : Text) : Int → Int × Int
  | .ofNat offset => ((text.placeOf offset).line, (text.placeOf offset).column)
  | offset => (-1, offset - text.lastLine)

end Text

end UrlRebase
