import UrlRebase.SourceMap.Basic

/-!
# Joining source maps

The map of texts written one after the other.  The sources and names of the parts are
merged, and the mappings of a part move down by the lines before it.
-/

namespace UrlRebase.SourceMap

/-- A text's map, if it has one, and the line breaks that the text adds to the whole. -/
structure Part where
  lines : Int
  map : Option SourceMap

/-- A source behind the root of its map. -/
def rootedSource (root : Json) (source : Text) : Except UseError Text :=
  match root with
  | .string root =>
      if root = [] then .ok source
      else .ok (Text.trimRight (· = .char '/') root ++ "/".text ++ source)
  | root => if root.truthy then .error .rootNotText else .ok source

/-- Adds sources to a map and gives their indices there. -/
def mergeSources (root : Json) (contents : List Json) (index : Nat) :
    SourceMap → List Text → Except UseError (SourceMap × List Nat)
  | whole, [] => .ok (whole, [])
  | whole, source :: rest => do
      let source ← rootedSource root source
      let (place, whole) := whole.internSource source (contents[index]?.getD .null)
      let (whole, places) ← mergeSources root contents (index + 1) whole rest
      return (whole, place :: places)

def mergeNames : SourceMap → List Json → SourceMap × List Nat
  | whole, [] => (whole, [])
  | whole, name :: rest =>
      let (place, whole) := whole.internName name
      let (whole, places) := mergeNames whole rest
      (whole, place :: places)

/-- The index in the whole that stands for an index of a part. -/
def movedIndex (places : List Nat) (index : Int) : Except UseError Int :=
  match entry? places index with
  | none => .error .indexOutOfRange
  | some place => .ok place

/-- A mapping moved down by some lines, its indices replaced by those of the whole. -/
def moveMapping (lines : Int) (sources names : List Nat) (mapping : Mapping) :
    Except UseError Mapping := do
  let generated : Position := { mapping.generated with line := mapping.generated.line + lines }
  match mapping.source with
  | none => return { mapping with generated }
  | some source =>
      let source ← movedIndex sources source
      let name ←
        match mapping.name with
        | none => pure none
        | some name => (movedIndex names name).map some
      return { mapping with generated, source := some source, name }

/-- Adds a part that starts on the given line to a map; mappings stay in order of parts. -/
def addPart (lines : Int) (whole part : SourceMap) : Except UseError SourceMap := do
  let (whole, sources) ←
    mergeSources part.root (part.contents.getD []) 0 whole part.sources
  let (whole, names) := mergeNames whole part.names
  let mappings ← part.mappings.mapM (moveMapping lines sources names)
  return { whole with mappings := whole.mappings ++ mappings }

/-- Adds parts to a map, the first one starting on the given line. -/
def addParts (lines : Int) (whole : SourceMap) : List Part → Except UseError SourceMap
  | [] => .ok whole
  | part :: rest => do
      let whole ←
        match part.map with
        | none => .ok whole
        | some map => addPart lines whole map
      addParts (lines + part.lines) whole rest

def Part.hasContents (part : Part) : Bool :=
  match part.map.bind contents with
  | none => false
  | some items => !items.isEmpty

/-- The map of the parts joined in order. -/
def concat (file : Json) (parts : List Part) : Except UseError SourceMap := do
  let empty : SourceMap :=
    { sources := [], mappings := [], names := [], file, root := .null
      contents := if parts.any Part.hasContents then some [] else none }
  let whole ← addParts 0 empty parts
  return { whole with mappings := Mapping.sort whole.mappings }

end UrlRebase.SourceMap
