import UrlRebase.Yaml.BlockScalar
import UrlRebase.Yaml.PlainScalar
import UrlRebase.Yaml.Property
import UrlRebase.Yaml.QuotedScalar
import UrlRebase.Yaml.Readable

/-!
# From text to tokens

Indentation opens and closes structures.  A key is only known by the colon behind it, so what
may be a key is kept back until a colon comes, or until none can come any more because the
line has ended or the key would be too long.

`tokens` gives the tokens of a text up to the first fault, and that fault.  A token that is
kept back when the fault comes is not among them.  Where the text goes on but cannot be read,
it is a fault that a character there is asked for, which may be one behind a token.
-/

namespace UrlRebase.Yaml

/-- A place where a key may have started. -/
structure PossibleKey where
  /-- The number of the token that it starts with. -/
  number : Nat
  /-- Whether it has to be a key, because it stands where one is expected. -/
  isRequired : Bool
  index : Nat
  line : Nat
  column : Nat

/-- What is known in the middle of a text. -/
structure Lexer where
  cursor : Cursor
  /-- Whether the text goes on behind its end, where it cannot be read. -/
  isCut : Bool := false
  /-- The tokens that are kept back. -/
  queue : List Token := []
  /-- The number of the tokens that were given out. -/
  given : Nat := 0
  /-- The number of brackets that are open. -/
  depth : Nat := 0
  /-- The column of the innermost structure; nothing is that far to the left at first. -/
  indent : Int := -1
  /-- The columns of the structures around it. -/
  outer : List Int := []
  /-- Whether a key may start here. -/
  allowsKey : Bool := true
  /-- Where a key may have started, by the number of open brackets. -/
  keys : List (Nat × PossibleKey) := []
  /-- Whether the text has ended. -/
  isDone : Bool := false

namespace Lexer

def inFlow (lexer : Lexer) : Bool :=
  lexer.depth ≠ 0

def column (lexer : Lexer) : Int :=
  lexer.cursor.column

def push (lexer : Lexer) (token : Token) : Lexer :=
  { lexer with queue := lexer.queue ++ [token] }

def insert (lexer : Lexer) (number : Nat) (token : Token) : Lexer :=
  let place := number - lexer.given
  { lexer with queue := lexer.queue.take place ++ token :: lexer.queue.drop place }

def moveTo (lexer : Lexer) (rest : Text) : Lexer :=
  { lexer with cursor := lexer.cursor.moveTo rest }

/-- The greatest number of characters of a key with what stands before its colon. -/
def maxKeyLength : Nat := 1024

/-- Whether a colon comes too late for a key. -/
def isStale (lexer : Lexer) (key : PossibleKey) : Bool :=
  key.line ≠ lexer.cursor.line || maxKeyLength < lexer.cursor.index - key.index

/-- Forgets the keys for which a colon comes too late. -/
def dropStaleKeys (lexer : Lexer) : Except Fault Lexer :=
  let (stale, fresh) := lexer.keys.partition fun entry => lexer.isStale entry.2
  if stale.any fun entry => entry.2.isRequired then .error .token
  else .ok { lexer with keys := fresh }

def dropKey (lexer : Lexer) : Except Fault Lexer :=
  match lexer.keys.lookup lexer.depth with
  | none => .ok lexer
  | some key =>
      if key.isRequired then .error .token
      else .ok { lexer with keys := lexer.keys.filter fun entry => entry.1 ≠ lexer.depth }

/-- Notes that a key may start here. -/
def noteKey (lexer : Lexer) : Except Fault Lexer :=
  if lexer.allowsKey then do
    let lexer ← lexer.dropKey
    let key : PossibleKey :=
      { number := lexer.given + lexer.queue.length
        isRequired := !lexer.inFlow && lexer.indent = lexer.column
        index := lexer.cursor.index
        line := lexer.cursor.line
        column := lexer.cursor.column }
    return { lexer with keys := (lexer.depth, key) :: lexer.keys }
  else .ok lexer

/-- Closes the structures, the innermost first, that start to the right of a column. -/
def closeStructures (column : Int) : Int → List Int → List Token × Int × List Int
  | indent, [] => ([], indent, [])
  | indent, next :: outer =>
      if column < indent then
        let (tokens, indent, outer) := closeStructures column next outer
        (.blockEnd :: tokens, indent, outer)
      else ([], indent, next :: outer)

/-- Closes the structures that start to the right of a column, unless brackets are open. -/
def unwind (lexer : Lexer) (column : Int) : Lexer :=
  if lexer.inFlow then lexer
  else
    let (tokens, indent, outer) := closeStructures column lexer.indent lexer.outer
    { lexer with queue := lexer.queue ++ tokens, indent, outer }

/-- Opens a structure at a column, if that is further to the right, and puts the token that
says so before the one with a number. -/
def openStructure (lexer : Lexer) (column : Int) (number : Nat) (token : Token) : Lexer :=
  if lexer.indent < column then
    { lexer with indent := column, outer := lexer.indent :: lexer.outer }.insert number token
  else lexer

def openHere (lexer : Lexer) (token : Token) : Lexer :=
  lexer.openStructure lexer.column (lexer.given + lexer.queue.length) token

def take (lexer : Lexer) (size : Nat) (token : Token) : Lexer :=
  { lexer with cursor := lexer.cursor.skip size }.push token

def finish (lexer : Lexer) : Except Fault Lexer := do
  let lexer ← (lexer.unwind (-1)).dropKey
  return { lexer with allowsKey := false, keys := [], isDone := true }.push .finish

def endDocument (lexer : Lexer) : Except Fault Lexer := do
  let lexer ← (lexer.unwind (-1)).dropKey
  return { lexer with allowsKey := false }

def directive (lexer : Lexer) : Except Fault Lexer := do
  let lexer ← lexer.endDocument
  let (directive, rest) ← Property.directive (lexer.cursor.rest.drop 1)
  return (lexer.moveTo rest).push (.directive directive)

def openFlow (lexer : Lexer) (token : Token) : Except Fault Lexer := do
  let lexer ← lexer.noteKey
  return { lexer with depth := lexer.depth + 1, allowsKey := true }.take 1 token

def closeFlow (lexer : Lexer) (token : Token) : Except Fault Lexer := do
  let lexer ← lexer.dropKey
  return { lexer with depth := lexer.depth - 1, allowsKey := false }.take 1 token

def flowEntry (lexer : Lexer) : Except Fault Lexer := do
  let lexer ← { lexer with allowsKey := true }.dropKey
  return lexer.take 1 .flowEntry

/-- A mark that may open a structure, unless brackets are open. -/
def openForMark (lexer : Lexer) (token : Token) : Except Fault Lexer :=
  if lexer.inFlow then .ok lexer
  else if lexer.allowsKey then .ok (lexer.openHere token)
  else .error .token

def blockEntry (lexer : Lexer) : Except Fault Lexer := do
  let lexer ← lexer.openForMark .blockSequenceStart
  let lexer ← { lexer with allowsKey := true }.dropKey
  return lexer.take 1 .blockEntry

def explicitKey (lexer : Lexer) : Except Fault Lexer := do
  let lexer ← lexer.openForMark .blockMappingStart
  let lexer ← { lexer with allowsKey := !lexer.inFlow }.dropKey
  return lexer.take 1 .key

def value (lexer : Lexer) : Except Fault Lexer := do
  match lexer.keys.lookup lexer.depth with
  | some key =>
      let keys := lexer.keys.filter fun entry => entry.1 ≠ lexer.depth
      let lexer := { lexer with keys }.insert key.number .key
      let lexer :=
        if lexer.inFlow then lexer
        else lexer.openStructure key.column key.number .blockMappingStart
      return { lexer with allowsKey := false }.take 1 .value
  | none =>
      let lexer ← lexer.openForMark .blockMappingStart
      let lexer ← { lexer with allowsKey := !lexer.inFlow }.dropKey
      return lexer.take 1 .value

/-- Notes that a key may start here, and that none may start behind what follows. -/
def startNode (lexer : Lexer) : Except Fault Lexer := do
  let lexer ← lexer.noteKey
  return { lexer with allowsKey := false }

def name (lexer : Lexer) (token : Text → Token) : Except Fault Lexer := do
  let lexer ← lexer.startNode
  let (name, rest) ← Property.anchor (lexer.cursor.rest.drop 1)
  return (lexer.moveTo rest).push (token name)

def tag (lexer : Lexer) : Except Fault Lexer := do
  let lexer ← lexer.startNode
  let (token, rest) ← Property.tag (lexer.cursor.rest.drop 1)
  return (lexer.moveTo rest).push token

def blockScalar (lexer : Lexer) (isFolded : Bool) : Except Fault Lexer := do
  let lexer ← { lexer with allowsKey := true }.dropKey
  let (text, cursor) ← BlockScalar.read isFolded lexer.indent lexer.cursor
  return { lexer with cursor }.push (.scalar text false)

/-- Whether it cannot be told if a text, which is at the start of a line, parts documents. -/
def isTooShort (lexer : Lexer) (text : Text) : Bool :=
  lexer.isCut && (text.length < 3 || (text.length = 3 && partsDocuments text))

/-- Whether that cannot be told of the last line of a scalar that started at a cursor. -/
def endsTooShort (lexer : Lexer) (start : Cursor) : Bool :=
  start.line < lexer.cursor.line &&
    (lexer.isCut && lexer.cursor.column + lexer.cursor.rest.length < 3 ||
      lexer.cursor.column = 0 && lexer.isTooShort lexer.cursor.rest)

def quotedScalar (lexer : Lexer) (mark : CodePoint) : Except Fault Lexer := do
  let lexer ← lexer.startNode
  let (text, cursor) ← QuotedScalar.read mark lexer.cursor
  let behind := { lexer with cursor }
  if behind.endsTooShort lexer.cursor then throw .character
  return behind.push (.scalar text false)

def plainScalar (lexer : Lexer) : Except Fault Lexer := do
  let lexer ← lexer.startNode
  let indent := (lexer.indent + 1).toNat
  let (text, cursor, allowsKey) := PlainScalar.read lexer.inFlow indent lexer.cursor
  let behind := { lexer with cursor, allowsKey }
  if behind.endsTooShort lexer.cursor then throw .character
  if lexer.isCut ∧ cursor.rest = ":".text then throw .character
  return behind.push (.scalar text true)

/-- The characters that no plain scalar starts with, unless a text follows at once. -/
def signs : Text := "-?:,[]\x7b\x7d#&*!|>'\"%@\x60".text

def startsPlain (lexer : Lexer) (c : CodePoint) (next : Option CodePoint) : Bool :=
  !(isGap (some c) || signs.contains c) ||
    (!isGap next && (c = '-' || (!lexer.inFlow && (c = '?' || c = ':'))))

def isMark (lexer : Lexer) (next : Option CodePoint) : Bool :=
  lexer.inFlow || isGap next

/-- Whether a token cannot be told by its first character, and what is behind that cannot be
read. -/
def asksBehind (lexer : Lexer) (c : CodePoint) (rest : Text) : Bool :=
  lexer.isCut &&
    ((lexer.cursor.column = 0 && (c = '-' || c = '.') && lexer.isTooShort (c :: rest)) ||
      (rest = [] && (c = '-' || c = '\t' || "%@\x60#".text.contains c ||
        (if lexer.inFlow then c = '|' || c = '>' else c = '?' || c = ':'))))

/-- Fails if the text goes on but cannot be read. -/
def expectMore (lexer : Lexer) : Except Fault Unit :=
  if lexer.isCut ∧ lexer.cursor.rest = [] then .error .character else .ok ()

def tokenAt (lexer : Lexer) (c : CodePoint) (rest : Text) : Except Fault Lexer :=
  let startsLine := lexer.cursor.column = 0
  let next := rest.head?
  if c = '%' ∧ startsLine then lexer.directive
  else if startsLine ∧ startsWithSigns '-' (c :: rest) then
    lexer.endDocument.map (·.take 3 .documentStart)
  else if startsLine ∧ startsWithSigns '.' (c :: rest) then
    lexer.endDocument.map (·.take 3 .documentEnd)
  else if c = '[' then lexer.openFlow .flowSequenceStart
  else if c = '\x7b' then lexer.openFlow .flowMappingStart
  else if c = ']' then lexer.closeFlow .flowSequenceEnd
  else if c = '\x7d' then lexer.closeFlow .flowMappingEnd
  else if c = ',' then lexer.flowEntry
  else if c = '-' ∧ isGap next then lexer.blockEntry
  else if c = '?' ∧ lexer.isMark next then lexer.explicitKey
  else if c = ':' ∧ lexer.isMark next then lexer.value
  else if c = '*' then lexer.name .alias
  else if c = '&' then lexer.name .anchor
  else if c = '!' then lexer.tag
  else if c = '|' ∧ !lexer.inFlow then lexer.blockScalar false
  else if c = '>' ∧ !lexer.inFlow then lexer.blockScalar true
  else if c = '\'' ∨ c = '"' then lexer.quotedScalar c
  else if lexer.startsPlain c next then lexer.plainScalar
  else .error .token

/-- A text without the spaces, comments and line breaks that it starts with, and whether
there were line breaks. -/
def skipGap (text : Text) : Text × Bool :=
  match _h : skipComment text with
  | [] => ([], false)
  | c :: rest => if isBreak c then ((skipGap rest).1, true) else (c :: rest, false)
termination_by text.length
decreasing_by
  have hle : (skipComment text).length ≤ text.length := by
    unfold skipComment
    have h := (List.dropWhile_sublist (l := text) (· = .char ' ')).length_le
    split
    · next rest hr =>
        have := (List.dropWhile_sublist (l := rest) fun c => !isBreak c).length_le
        rw [hr, List.length_cons] at h
        omega
    · exact h
  rw [_h, List.length_cons] at hle
  omega

def skipToToken (lexer : Lexer) : Lexer :=
  let text :=
    match lexer.cursor.index, lexer.cursor.rest with
    | 0, c :: rest => if c = byteOrderMark then rest else c :: rest
    | _, text => text
  let (rest, breaks) := skipGap text
  { lexer with allowsKey := lexer.allowsKey || (breaks && !lexer.inFlow) }.moveTo rest

def step (lexer : Lexer) : Except Fault Lexer := do
  let lexer := lexer.skipToToken
  lexer.expectMore
  let lexer ← lexer.dropStaleKeys
  let lexer := lexer.unwind lexer.column
  let lexer ←
    match lexer.cursor.rest with
    | [] => lexer.finish
    | c :: rest => do
        if lexer.asksBehind c rest then throw .character
        lexer.tokenAt c rest
  lexer.expectMore
  lexer.dropStaleKeys

def faultOf (lexer : Lexer) (fault : Fault) : Fault :=
  if lexer.isCut ∧ fault = .unended then .character else fault

/-- The number of the first token that may be a key, or of the next one to be read. -/
def firstOpen (lexer : Lexer) : Nat :=
  lexer.keys.foldl (fun first entry => min first entry.2.number)
    (lexer.given + lexer.queue.length)

/-- Gives out the tokens before the first that may be a key. -/
def release (lexer : Lexer) : List Token × Lexer :=
  let count := lexer.firstOpen - lexer.given
  (lexer.queue.take count,
    { lexer with queue := lexer.queue.drop count, given := lexer.given + count })

/-- The tokens from here on, and the fault behind them.  The bound is on the number of steps,
each of which reads a character or ends the text. -/
def tokensFrom : Nat → Lexer → List Token × Option Fault
  | 0, _ => ([], none)
  | bound + 1, lexer =>
      match lexer.step with
      | .error fault => ([], some (lexer.faultOf fault))
      | .ok lexer =>
          let (given, lexer) := lexer.release
          if lexer.isDone then (given, none)
          else
            let (more, fault) := tokensFrom bound lexer
            (given ++ more, fault)

end Lexer

/-- The tokens of a text, and the fault behind them if there is one. -/
def tokens (source : Readable) : List Token × Option Fault :=
  Lexer.tokensFrom (source.text.length + 1)
    { cursor := { rest := source.text }, isCut := source.isCut }

end UrlRebase.Yaml
