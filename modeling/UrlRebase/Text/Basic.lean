import UrlRebase.Text.CodePoint

/-!
# Texts

A text is a list of code points.  Every offset, column and length of this library
counts the elements of such a list, so slicing and counting agree by construction and
no byte offset occurs anywhere.

The few operations below are the ones that the list library does not name: cutting a
text into fields, trimming it, and unifying line breaks.
-/

namespace UrlRebase

/-- A sequence of code points. -/
abbrev Text := List CodePoint

namespace Text

def ofChars (characters : List Char) : Text :=
  characters.map .char

@[simp] theorem ofChars_nil : ofChars [] = [] := rfl

@[simp] theorem ofChars_cons (c : Char) (rest : List Char) :
    ofChars (c :: rest) = CodePoint.char c :: ofChars rest := rfl

/-- The text as a string to be shown; a lone half has a replacement character there. -/
def string (text : Text) : String :=
  String.ofList (text.map fun c => c.char?.getD '\uFFFD')

/-- The fields between the separators; there is always one more field than separators. -/
def fields (separator : CodePoint) : Text → List Text
  | [] => [[]]
  | c :: rest =>
      if c = separator then
        [] :: fields separator rest
      else
        match fields separator rest with
        | [] => [[c]]
        | field :: others => (c :: field) :: others

theorem fields_ne_nil (separator : CodePoint) (text : Text) :
    fields separator text ≠ [] := by
  cases text with
  | nil => simp [fields]
  | cons c rest =>
      simp only [fields]
      split
      · simp
      · split <;> simp

/-- What follows a position.  A position before the text counts back from its end, and the
whole text follows the end again; no position is further back than the text is long. -/
def behind? (text : Text) : Int → Option Text
  | .ofNat position => some (text.drop position)
  | .negSucc before =>
      if before < text.length then some (text.drop (text.length - (before + 1)) ++ text)
      else none

def joined (separator : Text) (parts : List Text) : Text :=
  separator.intercalate parts

/-- The part before the first separator, and the rest from the separator on. -/
def cut (separator : CodePoint) (text : Text) : Text × Text :=
  (text.takeWhile (· ≠ separator), text.dropWhile (· ≠ separator))

@[simp] theorem cut_append (separator : CodePoint) (text : Text) :
    (text.cut separator).1 ++ (text.cut separator).2 = text :=
  List.takeWhile_append_dropWhile

/-- The part before the last separator, and the part after it, if there is one. -/
def cutLast? (separator : CodePoint) (text : Text) : Option (Text × Text) :=
  match text.reverse.dropWhile (· ≠ separator) with
  | [] => none
  | _ :: before =>
      some (before.reverse, (text.reverse.takeWhile (· ≠ separator)).reverse)

def trimRight (isTrimmed : CodePoint → Bool) (text : Text) : Text :=
  (text.reverse.dropWhile isTrimmed).reverse

/-- Every carriage return followed by a newline becomes the newline alone. -/
def dropReturns : Text → Text
  | '\r' :: '\n' :: rest => '\n' :: dropReturns rest
  | c :: rest => c :: dropReturns rest
  | [] => []

/-- Every line break, be it a return, a newline or both in that order, becomes a newline. -/
def unifyBreaks : Text → Text
  | '\r' :: '\n' :: rest => '\n' :: unifyBreaks rest
  | '\r' :: rest => '\n' :: unifyBreaks rest
  | c :: rest => c :: unifyBreaks rest
  | [] => []

/-- The greatest number of digits of an integer that is read or written in base ten. -/
def maxDigits : Nat := 4300

def ofNat (n : Nat) : Text :=
  ofChars (Nat.toDigits 10 n)

def ofInt : Int → Text
  | .ofNat n => ofNat n
  | .negSucc n => '-' :: ofNat (n + 1)

/-- Whether an integer has too many digits to be written in base ten. -/
def isTooLong (n : Int) : Bool :=
  maxDigits < (ofNat n.natAbs).length

/-- The lexicographic order by code points. -/
def le (left right : Text) : Bool :=
  match left, right with
  | [], _ => true
  | _ :: _, [] => false
  | a :: as, b :: bs => if a = b then le as bs else a.toNat < b.toNat

end Text

end UrlRebase

def String.text (string : String) : UrlRebase.Text :=
  .ofChars string.toList
