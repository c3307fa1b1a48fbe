import UrlRebase.Pack.Listing

/-!
# Building assets

The inputs of an asset go through their processors, each of which turns a text and its map
into others, and are joined.  The map of an input names its sources relative to the asset,
so the joined map holds where the asset is written.
-/

namespace UrlRebase

namespace SourceMap

/-- The way from a directory to a source that a map in another directory names. -/
def sourceBeside (current inputDirectory outputDirectory : Text) (root : Json)
    (source : Text) : Except Failure Text := do
  let rooted ←
    if root.truthy then
      match root with
      | .string root => pure (Path.join root source)
      | _ => throw .wrongKind
    else pure source
  return Path.relative current (Path.absolute current (Path.join inputDirectory rooted))
    outputDirectory

/-- The map of an input as a map that stands beside an output.  The file name and the root
are dropped. -/
def beside (current input output : Text) (map : SourceMap) : Except Failure SourceMap := do
  let directory (path : Text) : Text := Path.dirname (Path.absolute current path)
  let sources ← map.sources.mapM
    (sourceBeside current (directory input) (directory output) map.root)
  return ofParts sources map.mappings map.names .null .null map.contents

end SourceMap

/-- A text on its way through the processors, and its map. -/
structure Draft where
  text : Text
  map : Option SourceMap.Given := none

namespace Packer

/-- Compiles a draft.  Only a file that no processor has touched gets a source map. -/
def compile (packer : Packer) (input : Input) (draft : Draft) : Work Draft := do
  let includes := [Path.dirname input.path]
  let untouched ←
    if packer.options.sourceMap && draft.map.isNone then
      pure (draft.text == (← Work.readText input.path))
    else pure false
  if untouched then
    let stem := (Path.splitExtension input.path).1
    let compilation : FileCompilation :=
      { path := input.path
        mapName := stem ++ ".css.map".text
        outputName := stem ++ ".css".text
        includes }
    Work.log .command compilation.command
    match packer.tools.compileFile compilation with
    | none => throw .compile
    | some compiled => return { text := compiled.text, map := compiled.map }
  else
    if packer.options.sourceMap then
      Work.log .debug ("Compiling ".text ++ input.name ++ " without a source map".text)
    let indented := ".sass".text.isSuffixOf input.path
    return { text := packer.tools.compileText includes indented draft.text }

def rebaseDraft (packer : Packer) (input : Input) (draft : Draft) : Work Draft := do
  let rebased ← packer.rebaser.run { text := draft.text, path := input.path, map := draft.map }
  modify fun workspace =>
    { workspace with assets := (workspace.assets ++ rebased.assets).eraseDups }
  return { text := rebased.text, map := rebased.map.map .map }

/-- Minifies a draft, which loses its map. -/
def minify (packer : Packer) (input : Input) (draft : Draft) : Work Draft := do
  if draft.map.isSome then
    Work.log .debug ("Minifying ".text ++ input.name ++ " discards its source map".text)
  return { text := packer.tools.minify draft.text }

def runProcessor (packer : Packer) (input : Input) (draft : Draft) (registration : Setting) :
    Work Draft := do
  match ← Work.lift (Processor.find packer.tools registration) with
  | .minify => packer.minify input draft
  | .rebase => packer.rebaseDraft input draft
  | .compile => packer.compile input draft
  | .external run =>
      return { text := ← Work.lift (run input.name draft.text draft.map) }

def process (packer : Packer) (input : Input) : Work Draft := do
  let text ← Work.readText input.path
  input.processors.foldlM (packer.runProcessor input) { text }

def mapBeside (current input output : Text) : Option SourceMap.Given →
    Except Failure (Option SourceMap)
  | none => .ok none
  | some given => do
      let map ← (SourceMap.load given).mapError .ofLoad
      return some (← map.beside current input output)

/-- Processes inputs and puts the separator behind each but the last.  Gives the texts,
each with the part that it has in the map of the whole. -/
def buildParts (packer : Packer) (separator : Setting) (output : Text) :
    List Input → Work (List (Text × SourceMap.Part))
  | [] => return []
  | input :: rest => do
      let draft ← packer.process input
      let text ←
        match rest, separator with
        | [], _ => pure draft.text
        | _, .text separator => pure (draft.text ++ separator)
        | _, _ => throw .wrongKind
      let map ← Work.lift (mapBeside (← Work.current) input.path output draft.map)
      let part : SourceMap.Part := ⟨text.count (.char '\n'), map⟩
      return (text, part) :: (← buildParts packer separator output rest)

/-- The text of an asset that is written to the given path, and its map.  There is no map
if maps are off or no input has one. -/
def build (packer : Packer) (name : Text) (inputs : List Input) (output : Text) :
    Work (Text × Option SourceMap) := do
  let separator := (packer.separators.at? (extensionOf name)).getD standardSeparator
  Work.log .debug <| "Packing ".text ++ name ++ " <<< ".text ++
    Text.joined " | ".text (inputs.map (·.name))
  let built ← packer.buildParts separator output inputs
  let text := (built.map (·.1)).flatten
  let parts := built.map (·.2)
  if packer.options.sourceMap && parts.any (·.map.isSome) then
    let map ← Work.lift
      ((SourceMap.concat (.string (Path.basename name)) parts).mapError .mapUse)
    return (text, some map)
  else return (text, none)

end Packer

end UrlRebase
