import UrlRebase.Edit.Basic
import UrlRebase.SourceMap.Lineage

/-!
# The map of an edited text

The map of a text after edits carries over every mapping of the text's own map, moved
along its line by the edits before it.  Each edited token gets anchors besides: mappings
of its own with the origin that its columns had before the edits.  A text without a map
maps the start of each of its lines to itself.
-/

namespace UrlRebase

/-- Which columns of an edited token get an anchor. -/
inductive Granularity where
  /-- The first column of the reference. -/
  | start
  /-- The first column and the one behind the closing parenthesis. -/
  | startAndEnd
deriving DecidableEq, Repr

namespace Granularity

/-- All granularities, in the order in which messages list them. -/
def all : List Granularity := [.start, .startAndEnd]

def name : Granularity → Text
  | .start => "start".text
  | .startAndEnd => "start-and-end".text

def ofName? (name : Text) : Option Granularity :=
  all.find? (·.name = name)

def columns : Granularity → Token → List Nat
  | .start, token => [token.place.column]
  | .startAndEnd, token => [token.place.column, token.finishColumn]

end Granularity

namespace Edit

/-- The map that anchors are added to: the parts of the text's own map without its
mappings, or the map of the text's lines. -/
def baseMap (text : Text) (lineage : Lineage) : SourceMap :=
  match lineage.map with
  | none => SourceMap.ofLines lineage.source text .null
  | some map => SourceMap.ofParts map.sources [] map.names map.file map.root map.contents

def baseMappings (text : Text) (edits : List Edit) (lineage : Lineage) : List Mapping :=
  match lineage.map with
  | none => (SourceMap.ofLines lineage.source text .null).mappings
  | some map =>
      map.mappings.map fun mapping =>
        let generated := mapping.generated
        { mapping with
          generated := ⟨generated.line, shift edits generated.line generated.column⟩ }

/-- Adds the source of an anchor to a map if need be, and gives the anchor. -/
def anchor (edits : List Edit) (lineage : Lineage) (map : SourceMap) (line column : Nat) :
    Except SourceMap.UseError (Mapping × SourceMap) := do
  let origin ← lineage.origin ⟨line, column⟩
  let (source, map) : Int × SourceMap :=
    match origin.sourceIndex with
    | some index => (index, map)
    | none =>
        let (index, map) := map.internSource origin.source .null
        (index, map)
  let mapping : Mapping :=
    { generated := ⟨line, shift edits line column⟩
      source := some source
      line := origin.line
      column := origin.column
      name := origin.name }
  return (mapping, map)

/-- Adds the sources of anchors at the given places, and gives the anchors. -/
def anchors (edits : List Edit) (lineage : Lineage) (map : SourceMap) :
    List (Nat × Nat) → Except SourceMap.UseError (List Mapping × SourceMap)
  | [] => .ok ([], map)
  | (line, column) :: rest => do
      let (first, map) ← anchor edits lineage map line column
      let (others, map) ← anchors edits lineage map rest
      return (first :: others, map)

def anchorPlaces (granularity : Granularity) (edits : List Edit) : List (Nat × Nat) :=
  edits.flatMap fun edit =>
    (granularity.columns edit.token).map fun column => (edit.token.place.line, column)

/-- The map of a text after the edits; of equal mappings only the first is kept. -/
def editedMap (text : Text) (edits : List Edit) (lineage : Lineage)
    (granularity : Granularity) : Except SourceMap.UseError SourceMap := do
  let (added, map) ←
    anchors edits lineage (baseMap text lineage) (anchorPlaces granularity edits)
  let merged := (baseMappings text edits lineage ++ added).eraseDups
  return { map with mappings := Mapping.sort merged }

end Edit

end UrlRebase
