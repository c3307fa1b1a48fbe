import UrlRebase.Yaml.Cursor
import UrlRebase.Yaml.Fault

/-!
# Block scalars

Behind a bar or an angle, the indented lines that follow are a text.  A bar keeps the line
breaks; an angle folds them between lines that do not start with a blank.  Signs behind the
bar or the angle tell the indentation and what becomes of the line breaks at the end.
-/

namespace UrlRebase.Yaml.BlockScalar

/-- What becomes of the line breaks at the end. -/
inductive Chomping where
  /-- None of them belongs to the text. -/
  | strip
  /-- The first one belongs to the text. -/
  | clip
  /-- All of them belong to the text. -/
  | keep
deriving DecidableEq, Repr

/-- What the signs at the start say. -/
structure Header where
  chomping : Chomping := .clip
  /-- By how many columns the text is indented. -/
  increment : Option Nat := none

def chomping? (c : CodePoint) : Option Chomping :=
  if c = '+' then some .keep else if c = '-' then some .strip else none

def increment? (c : CodePoint) : Option (Except Fault Nat) :=
  if c = '0' then some (.error .token)
  else if '1' ≤ c ∧ c ≤ '9' then some (.ok (c.toNat - '0'.toNat))
  else none

/-- Reads the signs at the start, in either order. -/
def header (text : Text) : Except Fault (Header × Text) := do
  let (header, rest) : Header × Text ←
    match text with
    | [] => pure ({}, [])
    | c :: rest =>
        match chomping? c, increment? c with
        | some chomping, _ =>
            match rest.head?.bind increment? with
            | some increment =>
                pure ({ chomping, increment := some (← increment) }, rest.drop 1)
            | none => pure ({ chomping }, rest)
        | none, some increment =>
            let increment ← increment
            match rest.head?.bind chomping? with
            | some chomping => pure ({ chomping, increment := some increment }, rest.drop 1)
            | none => pure ({ increment := some increment }, rest)
        | none, none => pure ({}, c :: rest)
  if isSpaceOrEnd rest.head? then return (header, rest) else throw .token

/-- Reads the rest of the line with the signs, of which the break is dropped. -/
def headerEnd (text : Text) : Except Fault Text :=
  match skipComment text with
  | [] => .ok []
  | c :: rest => if isBreak c then .ok rest else .error .token

/-- A text without the spaces that it starts with, but at most some of them. -/
def dropSpaces : Nat → Text → Text
  | n + 1, ' ' :: rest => dropSpaces n rest
  | _, text => text

theorem dropSpaces_length_le (n : Nat) (text : Text) :
    (dropSpaces n text).length ≤ text.length := by
  fun_induction dropSpaces n text with
  | case1 n rest ih => exact Nat.le_succ_of_le ih
  | case2 => exact Nat.le_refl _

/-- Lines without content at the start of a line, where lines are indented by some columns:
their breaks, and the text behind them and the spaces of the indentation. -/
def emptyLines (indent : Nat) (text : Text) : Text × Text :=
  match _h : dropSpaces indent text with
  | [] => ([], [])
  | c :: rest =>
      if isBreak c then
        let (breaks, left) := emptyLines indent rest
        (readBreak c :: breaks, left)
      else ([], c :: rest)
termination_by text.length
decreasing_by
  have := dropSpaces_length_le indent text
  rw [_h, List.length_cons] at this
  omega

/-- Lines without content at the start of a line, where the indentation is not known: their
breaks, the greatest number of spaces in one of them or before the first line with content,
and the text behind all of these. -/
def leadingLines (column widest : Nat) : Text → Text × Nat × Text
  | [] => ([], widest, [])
  | c :: rest =>
      if c = ' ' then leadingLines (column + 1) (max widest (column + 1)) rest
      else if isBreak c then
        let (breaks, widest, left) := leadingLines 0 widest rest
        (readBreak c :: breaks, widest, left)
      else ([], widest, c :: rest)

/-- What stands between two lines: the break at the end of the first one, the empty lines
behind it, and whether both lines start with no blank. -/
def between (isFolded : Bool) (lineBreak : CodePoint) (others : Text) (isLevel : Bool) : Text :=
  if isFolded ∧ lineBreak = '\n' ∧ isLevel then
    if others = [] then [' '] else others
  else lineBreak :: others

/-- The break at the end of the last line and the empty lines behind it. -/
def ending (chomping : Chomping) (lineBreak : Text) (others : Text) : Text :=
  match chomping with
  | .strip => []
  | .clip => lineBreak
  | .keep => lineBreak ++ others

/-- Reads lines, the first of which starts at the cursor.  The bound is on their number. -/
def lines (isFolded : Bool) (chomping : Chomping) (indent : Nat) :
    Nat → Cursor → Text × Cursor
  | 0, cursor => ([], cursor)
  | bound + 1, cursor =>
      let line := cursor.rest.takeWhile fun c => !isBreak c
      let isLevel := !(line.head?.any isBlank)
      match cursor.rest.dropWhile fun c => !isBreak c with
      | [] => (line, cursor.moveTo [])
      | c :: rest =>
          let (others, left) := emptyLines indent rest
          let cursor := cursor.moveTo left
          if cursor.column = indent ∧ left ≠ [] then
            let isLevel := isLevel && !(left.head?.any isBlank)
            let (more, cursor) := lines isFolded chomping indent bound cursor
            (line ++ between isFolded (readBreak c) others isLevel ++ more, cursor)
          else (line ++ ending chomping [readBreak c] others, cursor)

/-- Reads a block scalar, whose bar or angle is the next character, in a structure that is
indented by some columns. -/
def read (isFolded : Bool) (outer : Int) (cursor : Cursor) : Except Fault (Text × Cursor) := do
  let (header, rest) ← header (cursor.rest.drop 1)
  let rest ← headerEnd rest
  let least := (max (outer + 1) 1).toNat
  let (breaks, indent, left) :=
    match header.increment with
    | some increment =>
        let indent := least + increment - 1
        let (breaks, left) := emptyLines indent rest
        (breaks, indent, left)
    | none =>
        let (breaks, widest, left) := leadingLines 0 0 rest
        (breaks, max least widest, left)
  let cursor := cursor.moveTo left
  if cursor.column = indent ∧ left ≠ [] then
    let (text, cursor) := lines isFolded header.chomping indent (left.length + 1) cursor
    return (breaks ++ text, cursor)
  else return (ending header.chomping [] breaks, cursor)

end UrlRebase.Yaml.BlockScalar
