import UrlRebase.Text.Hex
import UrlRebase.Text.Utf8
import UrlRebase.Yaml.Cursor
import UrlRebase.Yaml.Fault
import UrlRebase.Yaml.Token

/-!
# Names, tags and directives

A node can be given a name behind an ampersand, and used by its name behind an asterisk.  A
tag behind an exclamation mark tells what kind of value a node is; its handle stands for the
start of the tag.  Lines that start with a percent sign tell what handles stand for.
-/

namespace UrlRebase.Yaml

def isNameChar (c : CodePoint) : Bool :=
  c.isAlphanum || c = '-' || c = '_'

namespace Property

def name (text : Text) : Except Fault (Text × Text) :=
  match text.takeWhile isNameChar with
  | [] => .error (.before text)
  | name => .ok (name, text.dropWhile isNameChar)

def endsName : Option CodePoint → Bool
  | none => true
  | some c => isGap (some c) || "?:,]\x7d%@\x60".text.contains c

def anchor (text : Text) : Except Fault (Text × Text) := do
  let (name, rest) ← name text
  if endsName rest.head? then return (name, rest) else throw .token

def isTagChar (c : CodePoint) : Bool :=
  c.isAlphanum || "-;/?:@&=+$,_.!~*'()[]".text.contains c

def charactersOf (bytes : List UInt8) (text : Text) : Except Fault Text :=
  match Utf8.decode? ⟨bytes.toArray⟩ with
  | none => .error (.before text)
  | some characters => .ok characters

/-- The characters of a tag at the start of a text, where percent signs and digits spell bytes,
behind some bytes that were read. -/
def tagTextFrom (bytes : List UInt8) : Text → Except Fault (Text × Text)
  | [] => do return (← charactersOf bytes [], [])
  | '%' :: a :: b :: rest =>
      if Text.isHex a ∧ Text.isHex b then
        tagTextFrom (bytes ++ [(Text.hexNumber [a, b]).toUInt8]) rest
      else .error .token
  | ['%', a] => .error (if Text.isHex a then .unended else .token)
  | ['%'] => .error .unended
  | c :: rest => do
      let characters ← charactersOf bytes (c :: rest)
      if isTagChar c then
        let (more, left) ← tagTextFrom [] rest
        return (characters ++ c :: more, left)
      else return (characters, c :: rest)

def suffix (text : Text) : Except Fault (Text × Text) := do
  let (suffix, rest) ← tagTextFrom [] text
  if suffix = [] then throw (.before rest) else return (suffix, rest)

/-- The handle at the start of a text: an exclamation mark alone, or two around a name. -/
def handle : Text → Except Fault (Text × Text)
  | '!' :: rest =>
      if rest.head? = some (.char ' ') then .ok (['!'], rest)
      else
        match rest.dropWhile isNameChar with
        | '!' :: left => .ok ('!' :: (rest.takeWhile isNameChar ++ "!".text), left)
        | left => .error (.before left)
  | text => .error (.before text)

/-- Whether there is an exclamation mark in a text before the next gap. -/
def hasHandle (text : Text) : Bool :=
  (text.takeWhile fun c => !isSpaceOrEnd (some c)).contains '!'

/-- Reads a tag behind its exclamation mark: its handle, if it has one, and what follows. -/
def tagParts (text : Text) : Except Fault ((Option Text × Text) × Text) :=
  match text with
  | '<' :: rest => do
      let (suffix, left) ← suffix rest
      match left with
      | '>' :: left => return ((none, suffix), left)
      | left => throw (.before left)
  | rest =>
      if isGap rest.head? then .ok ((none, ['!']), rest)
      else if hasHandle rest then do
        let (handle, left) ← handle ('!' :: rest)
        let (suffix, left) ← suffix left
        return ((some handle, suffix), left)
      else do
        let (suffix, left) ← suffix rest
        return ((some ['!'], suffix), left)

/-- Whether a text is searched for the end of a handle in vain. -/
def lacksHandle (text : Text) : Bool :=
  !isGap text.head? && text.head? ≠ some (.char '<') &&
    text.all fun c => !isSpaceOrEnd (some c) && c ≠ '!'

def tag (text : Text) : Except Fault (Token × Text) := do
  let fault : Fault := if lacksHandle text then .unended else .token
  let ((handle, suffix), rest) ← (tagParts text).mapError fun other =>
    if other = .token then fault else other
  if isSpaceOrEnd rest.head? then return (.tag handle suffix, rest) else throw fault

def number (text : Text) : Except Fault (Nat × Text) :=
  match text.takeWhile CodePoint.isDigit with
  | [] => .error (.before text)
  | digits =>
      if Text.maxDigits < digits.length then .error (.longInteger digits.length)
      else
        let value := digits.foldl (fun n c => n * 10 + (c.toNat - '0'.toNat)) 0
        .ok (value, text.dropWhile CodePoint.isDigit)

/-- Fails unless a text ends or goes on with a space or a line break. -/
def expectSpaceOrEnd (text : Text) : Except Fault Unit :=
  if isSpaceOrEnd text.head? then .ok () else .error .token

def directiveValue (name text : Text) : Except Fault (Directive × Text) :=
  if name = "YAML".text then do
    let (major, rest) ← number (text.dropWhile (· = .char ' '))
    match rest with
    | '.' :: rest =>
        let (_, left) ← number rest
        expectSpaceOrEnd left
        return (.version major, left)
    | rest => throw (.before rest)
  else if name = "TAG".text then do
    let (handle, rest) ← handle (text.dropWhile (· = .char ' '))
    if rest.head? ≠ some (.char ' ') then throw (.before rest)
    let (expansion, left) ← suffix (rest.dropWhile (· = .char ' '))
    expectSpaceOrEnd left
    return (.tag handle expansion, left)
  else .ok (.other, text.dropWhile fun c => !isBreak c)

def directive (text : Text) : Except Fault (Directive × Text) := do
  let (name, rest) ← name text
  expectSpaceOrEnd rest
  let (directive, left) ← directiveValue name rest
  match skipComment left with
  | [] => return (directive, [])
  | c :: rest => if isBreak c then return (directive, rest) else throw .token

end Property

end UrlRebase.Yaml
