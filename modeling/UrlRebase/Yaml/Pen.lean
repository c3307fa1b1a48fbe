import UrlRebase.Text.Hex
import UrlRebase.Yaml.Cursor
import UrlRebase.Yaml.Style

/-!
# Writing scalars

A pen knows what was written and where it stands in the line.  Scalars are broken at single
spaces behind the eightieth column, and in double marks at any character there; what follows
a break is indented.
-/

namespace UrlRebase.Yaml

/-- What was written, and where the next character comes. -/
structure Pen where
  /-- What was written, the last character first. -/
  written : Text := []
  column : Nat := 0
  /-- Whether a blank or a line break was written last. -/
  isBlank : Bool := true
  /-- Whether nothing but marks of the structure was written in the line. -/
  isIndented : Bool := true
  /-- The values with names that were written. -/
  used : List Nat := []

namespace Pen

def width : Nat := 80

def put (pen : Pen) (text : Text) : Pen :=
  { pen with written := text.reverse ++ pen.written, column := pen.column + text.length }

def putApart (pen : Pen) (text : Text) : Pen :=
  { pen.put (if pen.isBlank then text else ' ' :: text) with
    isBlank := false, isIndented := false }

def putClose (pen : Pen) (text : Text) : Pen :=
  { pen.put text with isBlank := false, isIndented := false }

def putMark (pen : Pen) (mark : Text) : Pen :=
  { pen.putApart mark with isIndented := pen.isIndented }

def lineBreak (pen : Pen) (c : CodePoint) : Pen :=
  { pen with written := c :: pen.written, column := 0, isBlank := true, isIndented := true }

/-- Goes to a column of a line where nothing but marks of the structure was written. -/
def indent (pen : Pen) (column : Nat) : Pen :=
  let pen :=
    if !pen.isIndented ∨ column < pen.column ∨ (pen.column = column ∧ !pen.isBlank) then
      pen.lineBreak '\n'
    else pen
  if pen.column < column then
    { pen.put (List.replicate (column - pen.column) ' ') with isBlank := true }
  else pen

/-- Says that the line has content. -/
def fill (pen : Pen) : Pen :=
  { pen with isBlank := false, isIndented := false }

/-- A part of a scalar that is written as a whole. -/
inductive Run where
  | spaces (count : Nat)
  | breaks (text : Text)
  | quote
  | plain (text : Text)

/-- Adds a character to the runs behind it. -/
def addToRuns (c : CodePoint) (runs : List Run) : List Run :=
  if c = ' ' then
    match runs with
    | .spaces count :: rest => .spaces (count + 1) :: rest
    | rest => .spaces 1 :: rest
  else if isBreak c then
    match runs with
    | .breaks text :: rest => .breaks (c :: text) :: rest
    | rest => .breaks [c] :: rest
  else if c = '\'' then .quote :: runs
  else
    match runs with
    | .plain text :: rest => .plain (c :: text) :: rest
    | rest => .plain [c] :: rest

/-- The runs of a text. -/
def runs (text : Text) : List Run :=
  text.foldr addToRuns []

/-- Writes spaces, or breaks the line for a single one. -/
def putSpaces (pen : Pen) (mayBreak : Bool) (column count : Nat) : Pen :=
  if count = 1 ∧ width < pen.column ∧ mayBreak then pen.indent column
  else pen.put (List.replicate count ' ')

/-- Writes line breaks; a newline that comes first is written twice. -/
def putBreaks (pen : Pen) (column : Nat) (breaks : Text) : Pen :=
  let pen := if breaks.head? = some (.char '\n') then pen.lineBreak '\n' else pen
  (breaks.foldl lineBreak pen).indent column

def putPlainRuns (mayBreak : Bool) (column : Nat) (pen : Pen) : List Run → Pen
  | [] => pen
  | .spaces count :: rest =>
      putPlainRuns mayBreak column (pen.putSpaces mayBreak column count).fill rest
  | .breaks text :: rest => putPlainRuns mayBreak column (pen.putBreaks column text).fill rest
  | .quote :: rest => putPlainRuns mayBreak column (pen.put ['\'']) rest
  | .plain text :: rest => putPlainRuns mayBreak column (pen.put text) rest

def putPlain (pen : Pen) (mayBreak : Bool) (column : Nat) (text : Text) : Pen :=
  if text = [] then pen
  else putPlainRuns mayBreak column (pen.putApart []) (runs text)

def putSingleRuns (mayBreak : Bool) (column : Nat) (isFirst : Bool) (pen : Pen) :
    List Run → Pen
  | [] => pen
  | .spaces count :: rest =>
      let mayBreak' := mayBreak && !isFirst && !rest.isEmpty
      putSingleRuns mayBreak column false (pen.putSpaces mayBreak' column count) rest
  | .breaks text :: rest =>
      putSingleRuns mayBreak column false (pen.putBreaks column text) rest
  | .quote :: rest => putSingleRuns mayBreak column false (pen.put ['\'', '\'']) rest
  | .plain text :: rest => putSingleRuns mayBreak column false (pen.put text) rest

def putSingle (pen : Pen) (mayBreak : Bool) (column : Nat) (text : Text) : Pen :=
  (putSingleRuns mayBreak column true (pen.putApart ['\'']) (runs text)).putClose ['\'']

def letters : List (CodePoint × CodePoint) :=
  [('\x00', '0'), ('\x07', 'a'), ('\x08', 'b'), ('\t', 't'), ('\n', 'n'), ('\x0b', 'v'),
    ('\x0c', 'f'), ('\r', 'r'), ('\x1b', 'e'), ('"', '"'), ('\\', '\\'), ('\u0085', 'N'),
    ('\u00a0', '_'), ('\u2028', 'L'), ('\u2029', 'P')]

def capitalHex (width n : Nat) : Text :=
  (Text.hex width n).map CodePoint.toUpper

/-- The escape of a character, if it cannot stand for itself between double marks. -/
def escape? (c : CodePoint) : Option Text :=
  match letters.lookup c with
  | some letter => some ['\\', letter]
  | none =>
      if ' ' ≤ c ∧ c ≤ '~' then none
      else
        let n := c.toNat
        if n ≤ 0xFF then some ('\\' :: 'x' :: capitalHex 2 n)
        else if n ≤ 0xFFFF then some ('\\' :: 'u' :: capitalHex 4 n)
        else some ('\\' :: 'U' :: capitalHex 8 n)

/-- Breaks the line between double marks before a character; a space there is escaped. -/
def breakDouble (pen : Pen) (column : Nat) (next : Option CodePoint) : Pen :=
  let pen := ((pen.put ['\\']).indent column).fill
  if next = some (.char ' ') then pen.put ['\\'] else pen

/-- Writes characters between double marks behind some that were not written yet, the last of
which comes first. -/
def putDoubleFrom (mayBreak : Bool) (column : Nat) (isFirst : Bool) (pending : Text) (pen : Pen) :
    Text → Pen
  | [] => pen.put pending.reverse
  | c :: rest =>
      let mayBreakHere := mayBreak && !isFirst && !rest.isEmpty
      match escape? c with
      | some escape =>
          let pen := (pen.put pending.reverse).put escape
          let pen :=
            if mayBreakHere ∧ width + 1 < pen.column then pen.breakDouble column rest.head?
            else pen
          putDoubleFrom mayBreak column false [] pen rest
      | none =>
          if mayBreakHere ∧ (c = ' ' ∨ pending = []) ∧ width < pen.column + pending.length then
            let pen := (pen.put pending.reverse).breakDouble column (some c)
            putDoubleFrom mayBreak column false [c] pen rest
          else putDoubleFrom mayBreak column false (c :: pending) pen rest

def putDouble (pen : Pen) (mayBreak : Bool) (column : Nat) (text : Text) : Pen :=
  (putDoubleFrom mayBreak column true [] (pen.putApart ['"']) text).putClose ['"']

def putLines (pen : Pen) (column : Nat) (text : Text) : Pen :=
  ((Text.fields '\n' text).dropLast).foldl
    (fun pen line => ((pen.indent column).put line).lineBreak '\n') pen

def putBlock (pen : Pen) (column : Nat) (text : Text) : Pen :=
  ((pen.putApart ['|']).lineBreak '\n').putLines column text

def putScalar (pen : Pen) (style : Style) (mayBreak : Bool) (column : Nat) (text : Text) : Pen :=
  match style with
  | .plain => pen.putPlain mayBreak column text
  | .single => pen.putSingle mayBreak column text
  | .double => pen.putDouble mayBreak column text
  | .block => pen.putBlock column text

end Pen

end UrlRebase.Yaml
