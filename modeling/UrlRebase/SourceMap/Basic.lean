import UrlRebase.Json.Parser
import UrlRebase.SourceMap.Mapping
import UrlRebase.Text.Place
import UrlRebase.Text.Utf8

/-!
# Source maps

A source map lists sources and names and says by mappings where the positions of a
generated text come from.  Its mappings are sorted by generated position whenever it is
built.  Fields that the map only carries along (the names, the generated file's name, the
root and the contents of the sources) are kept as the JSON values that they are.

`load` validates what it is given and `toJson` writes a map, if its mappings can be written;
only version 3 without sections is understood.
-/

namespace UrlRebase

/-- A source map; an absent root or file name is null. -/
structure SourceMap where
  sources : List Text
  mappings : List Mapping
  names : List Json
  file : Json
  root : Json
  contents : Option (List Json)
deriving Repr

namespace SourceMap

/-- The map with the given parts: its mappings sorted, and no contents if they are empty. -/
def ofParts (sources : List Text) (mappings : List Mapping) (names : List Json)
    (file root : Json) (contents : Option (List Json)) : SourceMap where
  sources
  mappings := Mapping.sort mappings
  names
  file
  root
  contents := contents.filter (· ≠ [])

def sourceName : Json → Text
  | .null => []
  | value => value.plain

def list? : Json → Option (List Json)
  | .array items => some items
  | _ => none

/-- A value, or null if it counts as false. -/
def orNull (value : Json) : Json :=
  if value.truthy then value else .null

/-- Whether a value is the version that is understood, as a number. -/
def isVersion : Json → Bool
  | .bool _ => false
  | value => value.same (.int 3)

def ofJson (value : Json) : Except Malformed SourceMap := do
  let .object members := value | .error .notObject
  let field (key : String) : Json := (members.lookup key.text).getD .null
  if (members.lookup "sections".text).isSome then .error .sectioned
  if !isVersion (field "version") then .error (.version (field "version"))
  let some sources := list? (field "sources") | .error .sourcesNotList
  let names := field "names"
  let .string written := field "mappings" | .error .mappingsNotText
  let some names := if names.truthy then list? names else some [] | .error .namesNotList
  let contents ←
    match field "sourcesContent" with
    | .null => .ok none
    | .array items => .ok (some items)
    | _ => .error .contentsNotList
  let mappings ← Mapping.decode ⟨sources.length, names.length⟩ written
  return ofParts (sources.map sourceName) mappings names (field "file")
    (orNull (field "sourceRoot")) contents

/-- The map as a JSON value with the given written mappings; fields that count as false are
left out. -/
def withMappings (map : SourceMap) (written : Text) : Json :=
  let optional (key : String) (value : Json) : List (Text × Json) :=
    if value.truthy then [(key.text, value)] else []
  .object <|
    [("version".text, .int 3)] ++ optional "file" map.file ++
    optional "sourceRoot" map.root ++
    [("sources".text, .array (map.sources.map .string)),
      ("names".text, .array map.names),
      ("mappings".text, .string written)] ++
    (map.contents.map fun items => ("sourcesContent".text, Json.array items)).toList

def toJson (map : SourceMap) : Except WriteError Json :=
  (Mapping.encode map.mappings).map map.withMappings

def print (map : SourceMap) : Except WriteError Text :=
  map.toJson.map Json.print

/-- Whether two maps are written as equal values. -/
def same (left right : SourceMap) : Except WriteError Bool := do
  return (← left.toJson).same (← right.toJson)

/-- What may stand for a source map: a map, its JSON value, or that as text or bytes. -/
inductive Given where
  | map (map : SourceMap)
  | json (value : Json)
  | text (text : Text)
  | bytes (bytes : ByteArray)

def parse (text : Text) : Except LoadError SourceMap :=
  match Json.parse text with
  | .error .tooDeep => .error .tooDeep
  | .error .malformed => .error (.malformed .notJson)
  | .ok value => (ofJson value).mapError .ofMalformed

/-- The map that is given in any form.  A JSON value that is a text is the text of a map. -/
def load : Given → Except LoadError SourceMap
  | .map map => .ok map
  | .json (.string text) => parse text
  | .json value => (ofJson value).mapError .ofMalformed
  | .text text => parse text
  | .bytes bytes =>
      match Utf8.decode? bytes with
      | none => .error .notUtf8
      | some text => parse text

/-- The entry of a list with an index.  A negative index counts from the end. -/
def entry? {α : Type} (entries : List α) (index : Int) : Option α :=
  if 0 ≤ index then entries[index.toNat]?
  else if -index ≤ entries.length then entries[(index + entries.length).toNat]?
  else none

/-- The index of a source, which is added with its content if the map does not have it.
The content is recorded only in a map that records contents. -/
def internSource (map : SourceMap) (source : Text) (content : Json) : Nat × SourceMap :=
  match map.sources.idxOf? source with
  | some index => (index, map)
  | none =>
      (map.sources.length,
        { map with
          sources := map.sources ++ [source]
          contents := map.contents.map (· ++ [content]) })

/-- The index of a name, which is added if the map does not have it. -/
def internName (map : SourceMap) (name : Json) : Nat × SourceMap :=
  match map.names.findIdx? (·.same name) with
  | some index => (index, map)
  | none => (map.names.length, { map with names := map.names ++ [name] })

/-- The map that sends the start of every line of a text to itself. -/
def ofLines (source text : Text) (content : Json) : SourceMap :=
  let line (n : Nat) : Mapping :=
    { generated := ⟨n, 0⟩, source := some 0, line := some n, column := some 0 }
  ofParts [source] ((List.range text.lineCount).map line) [] .null .null
    (match content with
      | .null => none
      | content => some [content])

end SourceMap

end UrlRebase
