import UrlRebase.Pack.Output
import UrlRebase.Yaml.Value

/-!
# Starting a packer

A packer starts from a configuration file, whose settings give way to others that are given
besides.  The standard file need not exist, but a file that is asked for has to.
-/

namespace UrlRebase.Packer

def standardConfig : Text := "cssrebase.yaml".text

/-- The value that a configuration file spells; an empty table if it says nothing. -/
def parseConfig (text : Text) : Except Failure Setting :=
  match Yaml.parse text with
  | .error fault => .error (.config fault)
  | .ok value => .ok (if value.truthy then value else .table none [])

def loadConfig (packer : Packer) (file : Setting) : Work Setting := do
  let name ← Work.lift (if file.truthy then file.toText else .ok standardConfig)
  match ← Work.attempt (Work.readText (packer.fromBase (← Work.current) name)) with
  | .ok text => Work.lift (parseConfig text)
  | .error (.file (.notFound path)) =>
      if file.truthy then throw (.file (.notFound path)) else return .table none []
  | .error error => throw error

def mergedConfig (config : Setting) (settings : Setting.Members) :
    Except Failure Setting.Members :=
  match config with
  | .table mark members =>
      let members := Setting.Members.ofAssignments (members ++ settings)
      .ok (Setting.membersOf mark members)
  | _ => .error .notObject

/-- The packer for a configuration file and other settings. -/
def start (tools : Toolchain) (base : Text) (file : Setting) (settings : Setting.Members) :
    Work Packer := do
  let packer : Packer := { tools, base }
  let config ← packer.loadConfig file
  let (outcome, packer) ← packer.configure (← Work.lift (mergedConfig config settings))
  Work.lift outcome
  return packer

end UrlRebase.Packer
