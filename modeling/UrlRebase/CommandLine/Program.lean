import UrlRebase.CommandLine.Arguments
import UrlRebase.Pack.Start
import UrlRebase.Yaml.Printer

/-!
# The program

Packs the assets that the command line names, or shows the configuration.
-/

namespace UrlRebase.CommandLine

/-- What the program leaves behind besides files and the log. -/
structure Outcome where
  code : Nat := 0
  output : Text := []
  complaint : Text := []
deriving DecidableEq, Repr

def help : Text :=
  ("usage: cssrebase [-h] [-c CONFIG] [-o OUTPUT] [-y] [-f] [--debug] [assets ...]\n").text

/-- Whether the configuration has an asset with a name.  Where it gives a text in place of
the assets, every part of that text counts. -/
def hasAsset (assets : Setting) (name : Text) : Except Failure Bool :=
  match assets with
  | .text text =>
      .ok ((List.range (text.length + 1)).any fun start => name.isPrefixOf (text.drop start))
  | .bytes _ => .error .wrongKind
  | assets =>
      match assets.elements? with
      | none => .error .wrongKind
      | some names => .ok (names.any (·.same (.text name)))

def settings (arguments : Arguments) : Setting.Members :=
  match arguments.output with
  | none | some [] => []
  | some output => [(.text "output".text, .text output)]

def printed (config : Setting.Members) : Except Failure Text :=
  match Yaml.print config with
  | .ok text => .ok text
  | .error .longInteger => .error .longNumber
  | .error .tooDeep => .error .tooDeep

def perform (tools : Toolchain) (arguments : Arguments) : Work Outcome := do
  let file : Setting := (arguments.config.map Setting.text).getD .null
  let packer ← Packer.start tools [] file (settings arguments)
  let packer := if arguments.debug then packer.withDebug else packer
  if arguments.yaml then
    return { output := (← Work.lift (printed packer.toConfig)) ++ "\n".text }
  let known ← Work.lift (arguments.assets.mapM (hasAsset packer.assets))
  let unknown := ((arguments.assets.zip known).filter fun entry => !entry.2).map Prod.fst
  if unknown ≠ [] then
    let names := Text.joined [',', ' '] unknown
    return { code := 1, complaint := "Unknown asset: ".text ++ names ++ "\n".text }
  match arguments.assets with
  | [] => packer.pack none arguments.force
  | assets => assets.forM fun asset => packer.pack (some asset) arguments.force
  return {}

def run (tools : Toolchain) (texts : List Text) : Work Outcome :=
  match Arguments.ofTexts texts with
  | .error .help => return { output := help }
  | .error .wrong => return { code := 2 }
  | .error .emptyValue => throw .emptyArgument
  | .ok arguments => perform tools arguments

end UrlRebase.CommandLine
