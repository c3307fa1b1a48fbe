import UrlRebase.Yaml.Graph
import UrlRebase.Yaml.Lexer

/-!
# From tokens to a document

A text holds at most one document.  The functions below follow the structure of documents:
`node` reads a node with its name and its tag, and the others read what stands inside
brackets or belongs together by indentation.  A node that is left out is an empty scalar.
-/

namespace UrlRebase.Yaml

/-- What is known in the middle of the tokens. -/
structure Composer where
  tokens : List Token
  /-- The fault behind the tokens. -/
  fault : Fault
  /-- What the handles of tags stand for. -/
  handles : List (Text × Text) := []
  graph : Graph := #[]
  /-- The nodes that were given names. -/
  names : List (Text × NodeId) := []

/-- A computation that reads tokens. -/
abbrev Composing : Type → Type :=
  StateT Composer (Except Fault)

namespace Composing

def peek : Composing Token := do
  let composer ← get
  match composer.tokens with
  | token :: _ => return token
  | [] => throw composer.fault

def advance : Composing Unit :=
  modify fun composer => { composer with tokens := composer.tokens.drop 1 }

/-- Whether the next token is one of some, none of which has a part. -/
def sees (tokens : List Token) : Composing Bool :=
  return tokens.contains (← peek)

def accept (token : Token) : Composing Bool := do
  if (← peek) = token then
    advance
    return true
  else return false

def addNode (tag : Tag) (content : Content) : Composing NodeId := do
  let composer ← get
  set { composer with graph := composer.graph.push ⟨tag, content⟩ }
  return composer.graph.size

/-- An empty scalar in place of a node that is left out. -/
def emptyNode : Composing NodeId :=
  addNode .null (.scalar [])

def nameNode (name : Option Text) (id : NodeId) : Composing Unit :=
  match name with
  | none => pure ()
  | some name => modify fun composer => { composer with names := (name, id) :: composer.names }

def checkName (name : Option Text) : Composing Unit := do
  match name with
  | none => return ()
  | some name => if ((← get).names.lookup name).isSome then throw .reference

/-- The name and the tag before a node, in either order. -/
def properties : Composing (Option Text × Option (Option Text × Text)) := do
  match ← peek with
  | .anchor name =>
      advance
      match ← peek with
      | .tag handle suffix =>
          advance
          return (some name, some (handle, suffix))
      | _ => return (some name, none)
  | .tag handle suffix =>
      advance
      match ← peek with
      | .anchor name =>
          advance
          return (some name, some (handle, suffix))
      | _ => return (none, some (handle, suffix))
  | _ => return (none, none)

def fullTag (handle : Option Text) (suffix : Text) : Composing Text := do
  match handle with
  | none => return suffix
  | some handle =>
      match (← get).handles.lookup handle with
      | none => throw .unexpected
      | some expansion => return expansion ++ suffix

/-- The tag of a node: the written one, unless there is none or it is an exclamation mark. -/
def writtenTag (tag : Option Text) (standard : Tag) : Tag :=
  match tag with
  | none => standard
  | some tag => if tag = "!".text then standard else .ofText tag

def scalarTag (tag : Option Text) (text : Text) (isPlain : Bool) : Tag :=
  if isPlain ∨ tag = some "!".text then writtenTag tag (.ofPlain text) else writtenTag tag .string

/-- Where a node stands. -/
inductive Position where
  /-- Inside brackets. -/
  | flow
  /-- At the start of a document or behind a dash. -/
  | block
  /-- Behind a key or a colon, where a list need not be indented. -/
  | member
deriving DecidableEq

/-- The greatest number of nodes that are inside each other. -/
def maxDepth : Nat := 485

def emptyScalar (name tag : Option Text) : Composing NodeId := do
  if name.isNone ∧ tag.isNone then throw .unexpected
  checkName name
  let id ← addNode (scalarTag tag [] tag.isNone) (.scalar [])
  nameNode name id
  return id

/-- Fails unless there is a comma, or the first element is still to come. -/
def expectEntry (isFirst : Bool) : Composing Unit := do
  unless isFirst do
    unless ← accept .flowEntry do throw .unexpected

/-- A node with a name and a tag that holds others, which are read behind its start. -/
def collection {α : Type} (name tag : Option Text) (standard : Tag) (wrap : List α → Content)
    (rest : Composing (List α)) : Composing NodeId := do
  checkName name
  let id ← addNode (writtenTag tag standard) (wrap [])
  nameNode name id
  let inside ← rest
  modify fun composer => { composer with graph := composer.graph.setContent id (wrap inside) }
  return id

mutual

/-- A node.  The bounds are on the number of calls and on the nodes that are still to be
inside each other. -/
def node : Nat → Nat → Position → Composing NodeId
  | 0, _, _ | _, 0, _ => throw .tooDeep
  | bound + 1, depth + 1, position => do
      if let .alias name ← peek then
        advance
        match (← get).names.lookup name with
        | none => throw .reference
        | some id => return id
      let (name, tag) ← properties
      let tag ← tag.mapM fun (handle, suffix) => fullTag handle suffix
      let sequence := collection name tag .sequence .sequence
      let mapping := collection name tag .mapping .mapping
      let isBlock := position ≠ .flow
      match ← peek with
      | .blockEntry =>
          if position = .member then sequence (looseElements bound depth)
          else emptyScalar name tag
      | .scalar text isPlain =>
          advance
          checkName name
          let id ← addNode (scalarTag tag text (isPlain && tag.isNone)) (.scalar text)
          nameNode name id
          return id
      | .flowSequenceStart => sequence do
          advance
          flowElements bound depth true
      | .flowMappingStart => mapping do
          advance
          flowMembers bound depth true
      | .blockSequenceStart =>
          if isBlock then sequence do
            advance
            blockElements bound depth
          else emptyScalar name tag
      | .blockMappingStart =>
          if isBlock then mapping do
            advance
            blockMembers bound depth
          else emptyScalar name tag
      | _ => emptyScalar name tag

def nodeUnless : Nat → Nat → Position → List Token → Composing NodeId
  | 0, _, _, _ => throw .tooDeep
  | bound + 1, depth, position, tokens => do
      if ← sees tokens then emptyNode else node bound depth position

def blockElements : Nat → Nat → Composing (List NodeId)
  | 0, _ => throw .tooDeep
  | bound + 1, depth => do
      if ← accept .blockEntry then
        let item ← nodeUnless bound depth .block [.blockEntry, .blockEnd]
        return item :: (← blockElements bound depth)
      else if ← accept .blockEnd then return []
      else throw .unexpected

/-- The elements of a list that is not indented. -/
def looseElements : Nat → Nat → Composing (List NodeId)
  | 0, _ => throw .tooDeep
  | bound + 1, depth => do
      if ← accept .blockEntry then
        let item ← nodeUnless bound depth .block [.blockEntry, .key, .value, .blockEnd]
        return item :: (← looseElements bound depth)
      else return []

def blockMembers : Nat → Nat → Composing (List (NodeId × NodeId))
  | 0, _ => throw .tooDeep
  | bound + 1, depth => do
      if ← accept .key then
        let key ← nodeUnless bound depth .member [.key, .value, .blockEnd]
        let value ←
          if ← accept .value then nodeUnless bound depth .member [.key, .value, .blockEnd]
          else emptyNode
        return (key, value) :: (← blockMembers bound depth)
      else if ← accept .blockEnd then return []
      else throw .unexpected

def flowElements : Nat → Nat → Bool → Composing (List NodeId)
  | 0, _, _ => throw .tooDeep
  | bound + 1, depth, isFirst => do
      if ← accept .flowSequenceEnd then return []
      expectEntry isFirst
      if ← sees [.key] then
        let item ← singleMember bound depth
        return item :: (← flowElements bound depth false)
      else if ← accept .flowSequenceEnd then return []
      else
        let item ← node bound depth .flow
        return item :: (← flowElements bound depth false)

def singleMember : Nat → Nat → Composing NodeId
  | 0, _ | _, 0 => throw .tooDeep
  | bound + 1, depth + 1 => do
      collection none none .mapping .mapping do
        advance
        let key ← nodeUnless bound depth .flow [.value, .flowEntry, .flowSequenceEnd]
        let value ←
          if ← accept .value then nodeUnless bound depth .flow [.flowEntry, .flowSequenceEnd]
          else emptyNode
        return [(key, value)]

def flowMembers : Nat → Nat → Bool → Composing (List (NodeId × NodeId))
  | 0, _, _ => throw .tooDeep
  | bound + 1, depth, isFirst => do
      if ← accept .flowMappingEnd then return []
      expectEntry isFirst
      if ← accept .key then
        let key ← nodeUnless bound depth .flow [.value, .flowEntry, .flowMappingEnd]
        let value ←
          if ← accept .value then nodeUnless bound depth .flow [.flowEntry, .flowMappingEnd]
          else emptyNode
        return (key, value) :: (← flowMembers bound depth false)
      else if ← accept .flowMappingEnd then return []
      else
        let key ← node bound depth .flow
        let value ← emptyNode
        return (key, value) :: (← flowMembers bound depth false)

end

def standardHandles : List (Text × Text) :=
  [(['!'], ['!']), (['!', '!'], Tag.standardPrefix)]

/-- Takes over the directives before a document, given whether a version was told and what
was told about handles. -/
def directives (isVersioned : Bool) (handles : List (Text × Text)) : List Token →
    Except Fault (List (Text × Text) × List Token)
  | .directive (.version major) :: rest =>
      if isVersioned ∨ major ≠ 1 then .error .unexpected else directives true handles rest
  | .directive (.tag handle expansion) :: rest =>
      if (handles.lookup handle).isSome then .error .unexpected
      else directives isVersioned ((handle, expansion) :: handles) rest
  | .directive .other :: rest => directives isVersioned handles rest
  | rest => .ok (handles ++ standardHandles, rest)

/-- Goes to where a document starts with a mark, and tells whether there is one. -/
def startDocument : Composing Bool := do
  let composer ← get
  let tokens := composer.tokens.dropWhile (· = .documentEnd)
  if tokens.head? = some .finish then
    set { composer with tokens }
    return false
  let (handles, tokens) ← directives false [] tokens
  set { composer with tokens, handles }
  unless ← accept .documentStart do throw .unexpected
  return true

def documentNode (bound : Nat) : Composing NodeId := do
  match ← peek with
  | .directive _ | .documentStart | .documentEnd | .finish => emptyNode
  | _ => node bound maxDepth .block

/-- The node of the only document, if there is one. -/
def singleDocument (bound : Nat) : Composing (Option NodeId) := do
  let root ←
    match ← peek with
    | .directive _ | .documentStart | .finish =>
        if ← startDocument then some <$> documentNode bound else pure none
    | _ =>
        modify fun composer => { composer with handles := standardHandles }
        some <$> node bound maxDepth .block
  if root.isSome then
    discard (accept .documentEnd)
    if ← startDocument then throw .reference
  return root

end Composing

namespace Document

def ofReadable (source : Readable) : Except Fault (Option Document) := do
  let (tokens, fault) := tokens source
  let bound := 4 * tokens.length + 4
  let composer : Composer := { tokens, fault := fault.getD .token }
  let (root, composer) ← (Composing.singleDocument bound).run composer
  return root.map fun root => { graph := composer.graph, root }

end Document

end UrlRebase.Yaml
