import UrlRebase.Pack.Build
import UrlRebase.Text.Encoding

/-!
# Packing assets

An asset is built and written if it is not there yet, or an input is newer, or it is asked
for.  Its map is written beside it, and the style sheet ends with the map's name.  Files
that references name by their content are copied beside the packed style sheets afterwards.
Everything is built before anything of the same asset is written.
-/

namespace UrlRebase.Packer

def outputPath (packer : Packer) (current name : Text) : Except Failure Text :=
  match packer.location with
  | .text location => .ok (packer.fromBase current (Path.join location name))
  | _ => .error .wrongKind

def trailer (mapName : Text) : Text :=
  "\n/*# sourceMappingURL=".text ++ mapName ++ " */".text

def write (packer : Packer) (name : Text) (inputs : List Input) (path : Text) : Work Unit := do
  Work.makeDirectories (Path.dirname path)
  let (text, map) ← packer.build name inputs path
  match map with
  | none => Work.writeText path text
  | some map =>
      Work.writeText (path ++ ".map".text) (← Work.lift (map.print.mapError .mapWrite))
      let mapName := Path.basename name ++ ".map".text
      Work.writeText path (text ++ trailer mapName)

/-- The time of a packed asset; zero if it is not there. -/
def timeOf (path : Text) : Work Int := do
  let files := (← get).files
  if files.exists? path then Work.lift ((files.timeOf path).mapError .file) else return 0

def anyChangedAfter (inputs : List Input) (time : Int) : Work Bool := do
  Work.lift (Input.anyIsNewer (← get).files time inputs)

/-- Writes an asset if need be. -/
def packInputs (packer : Packer) (force : Bool) (name : Text) (inputs : List Input) :
    Work Unit := do
  let path ← Work.lift (packer.outputPath (← Work.current) name)
  let time ← timeOf path
  if force || time = 0 then packer.write name inputs path
  else if ← anyChangedAfter inputs time then packer.write name inputs path

/-- Copies a file beside the packed assets under the name after its content, unless there is
such a file. -/
def copyFile (packer : Packer) (path : Text) : Work Unit := do
  let storage := packer.fromBase (← Work.current) (← Work.lift packer.location.toText)
  let target := Path.join storage (← Work.digestName path)
  unless ← Work.exists? target do
    Work.log .debug ("Copying ".text ++ path ++ " -> ".text ++ target)
    Work.makeDirectories (Path.dirname target)
    Work.write target (← Work.read path)

def copyFound (packer : Packer) : Work Unit := do
  if packer.options.mode = .contentDerived then
    (← get).assets.forM packer.copyFile

/-- Whether an asset is asked for.  Without a name all are. -/
def isAsked (asset : Option Text) (name : Setting) : Bool :=
  match asset with
  | none | some [] => true
  | some asset => name.same (.text asset)

/-- The name of an asset that is a file to be written. -/
def fileName : Setting → Except Failure Text
  | .text name => .ok name
  | _ => .error .wrongKind

/-- Packs the assets that are asked for, all of them if none is named. -/
def pack (packer : Packer) (asset : Option Text) (force : Bool) : Work Unit := do
  forgetFiles
  (← Work.lift packer.entries).forM fun entry => do
    let inputs ← packer.inputsOf entry.2
    if isAsked asset entry.1 then
      packer.packInputs force (← Work.lift (fileName entry.1)) inputs
  packer.copyFound

def encoded (name text : Text) : Except Failure ByteArray :=
  match Encoding.ofName? name with
  | none => .error .unknownEncoding
  | some encoding =>
      match encoding.encode text with
      | none => .error .unencodable
      | some bytes => .ok bytes

/-- The bytes of an asset, without its map, in the encoding with a name. -/
def packedBytes (packer : Packer) (asset encoding : Text) : Work ByteArray := do
  forgetFiles
  let bytes ← (← Work.lift packer.entries).mapM fun entry => do
    let inputs ← packer.inputsOf entry.2
    if entry.1.same (.text asset) then
      let path ← Work.lift (packer.outputPath (← Work.current) asset)
      let (text, _) ← packer.build asset inputs path
      Work.lift (encoded encoding text)
    else return ByteArray.empty
  return bytes.foldl ByteArray.append ByteArray.empty

end UrlRebase.Packer
