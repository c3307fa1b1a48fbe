import UrlRebase.Calendar.Date
import UrlRebase.Setting.Order
import UrlRebase.Setting.Printer
import UrlRebase.Setting.Table
import UrlRebase.Text.Base64
import UrlRebase.Yaml.Pen

/-!
# Writing configuration files

Every member and every element has a line of its own, and members are sorted by their keys.
A list stands as far to the left as the key that it belongs to, and a table two columns
further to the right.  What is empty is written in brackets.  A key that is long, empty or
of several lines stands behind a question mark.

A value that occurs more than once is named where it occurs first and written as its name
afterwards.
-/

namespace UrlRebase.Yaml

/-- Why a value cannot be written. -/
inductive PrintError where
  | longInteger
  | tooDeep
deriving DecidableEq, Repr

namespace Printer

/-- The number of values inside each other that can be written. -/
def maxDepth : Nat := 325

mutual

def depth : Setting → Nat
  | .list _ items | .set _ items => depthOfItems items + 1
  | .pair first second => max (depth first) (depth second) + 1
  | .table _ members => depthOfMembers members + 1
  | _ => 0

/-- The greatest depth of some items. -/
def depthOfItems : List Setting → Nat
  | [] => 0
  | item :: rest => max (depth item) (depthOfItems rest)

/-- The greatest depth of some members. -/
def depthOfMembers : List (Setting × Setting) → Nat
  | [] => 0
  | (_, value) :: rest => max (depth value) (depthOfMembers rest)

end

/-- The marks that were met, and those of them that were met again, in order. -/
structure Marks where
  met : List Nat := []
  named : List Nat := []

namespace Marks

/-- Meets a mark.  Tells whether it was new. -/
def meet (marks : Marks) (mark : Mark) : Marks × Bool :=
  match mark with
  | none => (marks, true)
  | some id =>
      if marks.met.contains id then
        (if marks.named.contains id then marks
          else { marks with named := marks.named ++ [id] }, false)
      else ({ marks with met := id :: marks.met }, true)

mutual

def meetAll (marks : Marks) : Setting → Marks
  | .date mark _ | .moment mark _ => (marks.meet mark).1
  | .loop mark => (marks.meet (some mark)).1
  | .list mark items | .set mark items =>
      match marks.meet mark with
      | (marks, true) => meetItems marks items
      | (marks, false) => marks
  | .table mark members =>
      match marks.meet mark with
      | (marks, true) => meetMembers marks members
      | (marks, false) => marks
  | .pair first second => meetAll (meetAll marks first) second
  | _ => marks

def meetItems (marks : Marks) : List Setting → Marks
  | [] => marks
  | item :: rest => meetItems (meetAll marks item) rest

/-- Meets the marks of members, the key of each before its value. -/
def meetMembers (marks : Marks) : List (Setting × Setting) → Marks
  | [] => marks
  | (key, value) :: rest => meetMembers (meetAll (meetAll marks key) value) rest

end

end Marks

/-- The names of values: the marks of the values that occur more than once, in order. -/
abbrev Names := List Nat

def nameOf? (names : Names) (mark : Mark) : Option Text :=
  mark.bind fun id => (names.idxOf? id).map fun place => "id".text ++ Text.padded 3 (place + 1)

def doubleText (value : Double) : Text :=
  let text := value.toText ".inf".text ".nan".text
  if text.contains 'e' ∧ !text.contains '.' then
    text.takeWhile (· ≠ .char 'e') ++ ".0".text ++ text.dropWhile (· ≠ .char 'e')
  else text

def scalar? : Setting → Option (Mark × Tag × Text)
  | .null => some (none, .null, "null".text)
  | .bool value => some (none, .bool, (if value then "true" else "false").text)
  | .int value => some (none, .int, Text.ofInt value)
  | .double value => some (none, .double, doubleText value)
  | .text value => some (none, .string, value)
  | .bytes value => some (none, .bytes, Base64.encode value)
  | .date mark value => some (mark, .timestamp, value.toText)
  | .moment mark value => some (mark, .timestamp, value.toText)
  | _ => none

def tagText (tag : Tag) : Text :=
  "!!".text ++ ((Tag.names.find? fun entry => entry.2 = tag).map Prod.fst).getD []

/-- The length that a key on one line may not reach. -/
def maxKeyLength : Nat := 128

/-- Whether a key is written on one line before its colon. -/
def isSimpleKey (names : Names) (used : List Nat) (key : Setting) : Bool :=
  match scalar? key with
  | none => false
  | some (mark, tag, text) =>
      let name := nameOf? names mark
      if name.isSome ∧ mark.any used.contains then true
      else
        text ≠ [] && !Style.isMultiline text &&
          ((name.map List.length).getD 0 + (tagText tag).length + text.length < maxKeyLength)

/-- Writes the name of a value.  Tells whether the value itself has to follow. -/
def putName (names : Names) (mark : Mark) (pen : Pen) : Pen × Bool :=
  match nameOf? names mark, mark with
  | some name, some id =>
      if pen.used.contains id then (pen.putApart ('*' :: name), false)
      else ({ pen.putApart ('&' :: name) with used := id :: pen.used }, true)
  | _, _ => (pen, true)

def putScalar (names : Names) (isKey : Bool) (column : Nat) (pen : Pen) (value : Setting) : Pen :=
  match scalar? value with
  | none => pen
  | some (mark, tag, text) =>
      match putName names mark pen with
      | (pen, false) => pen
      | (pen, true) =>
          let style := Style.ofScalar tag text isKey
          let pen := if tag = .bytes then pen.putApart (tagText tag) else pen
          pen.putScalar style (!isKey) column text

/-- Writes a key up to its colon, in a table at a column. -/
def putKey (names : Names) (column : Nat) (pen : Pen) (key : Setting) : Pen :=
  let pen := pen.indent column
  if isSimpleKey names pen.used key then
    (putScalar names true (column + 2) pen key).putClose [':']
  else
    let pen := putScalar names false (column + 2) (pen.putMark ['?']) key
    (pen.indent column).putMark [':']

/-- What a value belongs to. -/
inductive Place where
  | member
  | element
deriving DecidableEq

def elementColumn (place : Place) (column : Nat) (pen : Pen) : Nat :=
  if place = .member ∧ !pen.isIndented then column else column + 2

mutual

def putValue (names : Names) (place : Place) (column : Nat) (pen : Pen) : Setting → Pen
  | .list mark items =>
      match putName names mark pen with
      | (pen, false) => pen
      | (pen, true) =>
          if items.isEmpty then pen.putApart ['[', ']']
          else putElements names (elementColumn place column pen) pen items
  | .pair first second =>
      let column := elementColumn place column pen
      let pen := putValue names .element column ((pen.indent column).putMark ['-']) first
      putValue names .element column ((pen.indent column).putMark ['-']) second
  | .table mark members =>
      match putName names mark pen with
      | (pen, false) => pen
      | (pen, true) =>
          if members.isEmpty then pen.putApart ['\x7b', '\x7d']
          else putMembers names (column + 2) pen members
  | .set mark items =>
      match putName names mark pen with
      | (pen, false) => pen
      | (pen, true) =>
          let pen := pen.putApart (tagText .set)
          if items.isEmpty then pen.putApart ['\x7b', '\x7d']
          else putKeys names (column + 2) pen items
  | .loop mark => (putName names (some mark) pen).1
  | value => putScalar names false (column + 2) pen value

def putElements (names : Names) (column : Nat) (pen : Pen) : List Setting → Pen
  | [] => pen
  | item :: rest =>
      let pen := putValue names .element column ((pen.indent column).putMark ['-']) item
      putElements names column pen rest

def putMembers (names : Names) (column : Nat) (pen : Pen) : List (Setting × Setting) → Pen
  | [] => pen
  | (key, value) :: rest =>
      let pen := putValue names .member column (putKey names column pen key) value
      putMembers names column pen rest

def putKeys (names : Names) (column : Nat) (pen : Pen) : List Setting → Pen
  | [] => pen
  | key :: rest =>
      let pen := putScalar names false (column + 2) (putKey names column pen key) .null
      putKeys names column pen rest

end

end Printer

def print (members : Setting.Members) : Except PrintError Text :=
  let table : Setting := .table none members
  if Printer.maxDepth < Printer.depth table then .error .tooDeep
  else if table.hasLongInteger then .error .longInteger
  else
    let members := Setting.sortMembers (Setting.sortedMembers members)
    let names := (Printer.Marks.meetMembers {} members).named
    let pen : Pen :=
      if members.isEmpty then ({} : Pen).putApart ['\x7b', '\x7d']
      else Printer.putMembers names 0 {} members
    .ok (pen.indent 0).written.reverse

end UrlRebase.Yaml
