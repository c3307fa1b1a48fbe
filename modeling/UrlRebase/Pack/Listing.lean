import UrlRebase.Pack.Input
import UrlRebase.Pack.Packer

/-!
# The inputs of assets

The configuration lists the inputs of each asset.  An input is a file name behind the short
names of processors, the last one to run first, with colons between them; where there is
none, the extension of the file decides.  An object with such a text as its key adds the
patterns of the files that the input depends on.  A file that is in none of the search
directories is left out and told of.
-/

namespace UrlRebase.Packer

/-- What the configuration says about an input: the text that names it and what the input
depends on. -/
def inputParts : Setting → Except Failure (Text × Setting)
  | .text spec => .ok (spec, .list none [])
  | .table mark members =>
      match Setting.membersOf mark members with
      | [] => .error .emptyInput
      | (.text spec, depends) :: _ => .ok (spec, depends)
      | (.bytes _, _) :: _ => .error .wrongKind
      | _ => .error .notObject
  | value => do throw (.unknownInput (← value.toText))

/-- The first of some directories in which there is something with the given name. -/
def findBelow (packer : Packer) (name : Text) : List Setting → Work (Option Text)
  | [] => return none
  | root :: rest => do
      let directory := packer.fromBase (← Work.current) (← Work.lift root.toText)
      let path := Path.join directory name
      if ← Work.exists? path then return some path
      else findBelow packer name rest

def inputPath? (packer : Packer) (name : Text) : Work (Option Text) :=
  match packer.search.elements? with
  | none => throw .wrongKind
  | some roots => packer.findBelow name roots

/-- The extension of a name in lower case and without its dot. -/
def extensionOf (name : Text) : Text :=
  Text.lower ((Path.extension name).filter (· ≠ .char '.'))

def processorNames (packer : Packer) (named : List Text) (name : Text) :
    Except Failure (List Setting) :=
  match named with
  | [] =>
      match (packer.defaults.at? (extensionOf name)).map Setting.elements? with
      | none => .ok []
      | some none => .error .wrongKind
      | some (some names) => .ok names
  | named => .ok (named.reverse.map .text)

/-- The input that an element of an asset's list describes, if it can be found. -/
def inputOf (packer : Packer) (element : Setting) : Work (Option Input) := do
  let (spec, depends) ← Work.lift (inputParts element)
  let fields := Text.fields ':' spec
  let name := fields.getLast?.getD []
  let names ← Work.lift (packer.processorNames fields.dropLast name)
  Work.lift (names.forM packer.checkProcessor)
  match ← packer.inputPath? name with
  | some (c :: path) =>
      return some
        { name
          path := c :: path
          processors := names.map packer.registration
          depends := if depends.truthy then depends else .list none [] }
  | _ =>
      Work.log .error ("Input not found: ".text ++ name)
      return none

/-- The inputs that an asset's list describes; a text is a list of one element. -/
def inputsOf (packer : Packer) (list : Setting) : Work (List Input) := do
  let elements ←
    match list with
    | .text _ => pure [list]
    | list =>
        match list.elements? with
        | none => throw .wrongKind
        | some elements => pure elements
  return (← elements.mapM packer.inputOf).filterMap id

def entries (packer : Packer) : Except Failure Setting.Members :=
  match packer.assets.members? with
  | some members => .ok members
  | none => .error .notObject

def listing (packer : Packer) : Work (List (Setting × List Input)) := do
  (← Work.lift packer.entries).mapM fun entry => do
    return (entry.1, ← packer.inputsOf entry.2)

/-- The inputs of the asset with a name among some entries, if it is there.  The entries
behind it do not matter. -/
def inputsAmong (packer : Packer) (name : Text) : Setting.Members → Work (Option (List Input))
  | [] => return none
  | entry :: rest => do
      let inputs ← packer.inputsOf entry.2
      if entry.1.same (.text name) then return some inputs else packer.inputsAmong name rest

def inputsOfAsset (packer : Packer) (name : Text) : Work (Option (List Input)) := do
  packer.inputsAmong name (← Work.lift packer.entries)

end UrlRebase.Packer
