import UrlRebase.Yaml.Cursor

/-!
# Plain scalars

A scalar without marks goes on up to a colon or a hash sign that stands for itself, and in
brackets up to a sign of the brackets.  It may go on on further lines that are indented: a
single line break is then read as a space, and of several the first is dropped.
-/

namespace UrlRebase.Yaml

def isFlowSign (c : CodePoint) : Bool :=
  c = ',' || c = '[' || c = ']' || c = '\x7b' || c = '\x7d'

namespace PlainScalar

/-- Whether a character, which stands before another, cannot belong to a run. -/
def ends (inFlow : Bool) (c : CodePoint) (next : Option CodePoint) : Bool :=
  isGap (some c) ||
    (c = ':' && (isGap next || (inFlow && next.any isFlowSign))) ||
    (inFlow && (isFlowSign c || c = '?'))

/-- The characters up to one that cannot belong to a run. -/
def run (inFlow : Bool) : Text → Text
  | [] => []
  | c :: rest => if ends inFlow c rest.head? then [] else c :: run inFlow rest

/-- Lines without content: their breaks, the rest, and whether the rest parts documents. -/
def emptyLines : Text → Text × Text × Bool
  | [] => ([], [], false)
  | c :: rest =>
      if c = ' ' then emptyLines rest
      else if isBreak c then
        if partsDocuments rest then ([readBreak c], rest, true)
        else
          let (breaks, left, isParted) := emptyLines rest
          (readBreak c :: breaks, left, isParted)
      else ([], c :: rest, false)

/-- What stands between two runs. -/
structure Gap where
  /-- What is read for it; nothing if the scalar ends. -/
  text : Text
  rest : Text
  /-- Whether there is a line break in it. -/
  breaks : Bool

def gap (text : Text) : Gap :=
  let spaces := text.takeWhile (· = .char ' ')
  match text.dropWhile (· = .char ' ') with
  | [] => { text := spaces, rest := [], breaks := false }
  | c :: rest =>
      if isBreak c then
        if partsDocuments rest then { text := [], rest, breaks := true }
        else
          let (others, left, isParted) := emptyLines rest
          { text := if isParted then [] else foldedBreaks c others, rest := left, breaks := true }
      else { text := spaces, rest := c :: rest, breaks := false }

/-- Reads runs and gaps behind a gap that was read, up to the end of the scalar: its text, the
cursor behind it, and whether it ends with a line break.  The bound is on the number of runs. -/
def readFrom (inFlow : Bool) (indent : Nat) : Nat → Text → Bool → Cursor → Text × Cursor × Bool
  | 0, _, breaks, cursor => ([], cursor, breaks)
  | bound + 1, before, breaks, cursor =>
      if cursor.rest.head? = some (.char '#') then ([], cursor, breaks)
      else
        match run inFlow cursor.rest with
        | [] => ([], cursor, breaks)
        | run =>
            let behind := cursor.skip run.length
            let gap := gap behind.rest
            let cursor := behind.moveTo gap.rest
            if gap.text = [] ∨ cursor.rest.head? = some (.char '#') ∨
                (!inFlow ∧ cursor.column < indent)
            then (before ++ run, cursor, gap.breaks)
            else
              let (more, cursor, breaks) := readFrom inFlow indent bound gap.text gap.breaks cursor
              (before ++ run ++ more, cursor, breaks)

def read (inFlow : Bool) (indent : Nat) (cursor : Cursor) : Text × Cursor × Bool :=
  readFrom inFlow indent cursor.rest.length [] false cursor

end PlainScalar

end UrlRebase.Yaml
