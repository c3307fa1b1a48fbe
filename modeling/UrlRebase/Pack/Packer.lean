import UrlRebase.Pack.Processor
import UrlRebase.Rebase.Rebaser

/-!
# Packers

A packer knows from its configuration which assets there are, where their inputs are looked
for, how each is processed, and where the packed assets go.  Relative paths of the
configuration are taken from the base directory, if there is one.

Parts of the configuration that are only looked at when they are used stay the values that
they are.  `configure` takes the parts over one after the other: those before a faulty part
are in effect afterwards, and those behind it are not.
-/

namespace UrlRebase

/-- What to pack, and how and where to. -/
structure Packer where
  tools : Toolchain
  /-- The base directory; empty if there is none. -/
  base : Text
  /-- The directory of the packed assets. -/
  location : Setting := .null
  /-- Whether the directory was made up for want of a configured one. -/
  ephemeral : Bool := true
  /-- The directories in which inputs are looked for. -/
  search : Setting := .list none []
  /-- The URL of the directory of the packed assets. -/
  urlBase : Setting := .text []
  /-- The registered processors by short names. -/
  processors : Setting.Members := []
  /-- The processors of inputs by extensions. -/
  defaults : Setting.Members := []
  /-- What stands between the inputs of an asset, by the asset's extension. -/
  separators : Setting.Members := []
  /-- The inputs of the assets. -/
  assets : Setting := .table none []
  options : Options := {}
  searchPath : SearchPath := ⟨[], none, false⟩

namespace Packer

/-- A path of the configuration, relative to the base directory if there is one. -/
def fromBase (packer : Packer) (current path : Text) : Text :=
  if Path.isAbsolute path ∨ packer.base = [] then path
  else Path.absolute current (Path.normalize (Path.join packer.base path))

/-- The directory for packed assets where none is configured. -/
def ephemeralLocation : Text := "/tmp/cssrebase-0".text

/-- The processors of inputs by extensions, unless configured otherwise. -/
def standardDefaults : Setting.Members :=
  let named (names : List String) : Setting :=
    .list none (names.map fun name => .text name.text)
  [(.text "css".text, named ["rewrite"]), (.text "scss".text, named ["sass", "rewrite"]),
    (.text "sass".text, named ["sass", "rewrite"])]

/-- What stands between the inputs of an asset unless configured otherwise. -/
def standardSeparator : Setting := .text ['\n']

/-- The separators by extensions, unless configured otherwise. -/
def standardSeparators : Setting.Members :=
  [(.text "css".text, standardSeparator)]

/-- Fails unless a setting is the short name of a processor. -/
def checkProcessor (packer : Packer) (name : Setting) : Except Failure Unit :=
  if !name.canBeKey then .error .wrongKind
  else if (packer.processors.get? name).isSome then .ok ()
  else do throw (.unknownProcessor (← name.toText))

def registration (packer : Packer) (name : Setting) : Setting :=
  (packer.processors.get? name).getD .null

/-- A computation that changes a packer and may fail half-way. -/
abbrev Configuring : Type → Type :=
  ExceptT Failure (StateM Packer)

def check : Option Setting.PairError → Configuring Unit
  | none => pure ()
  | some error => throw (.pairs error)

def configureLocation (output : Setting) : Configuring Unit :=
  modify fun packer =>
    if output.truthy then { packer with location := output, ephemeral := false }
    else { packer with location := .text ephemeralLocation, ephemeral := true }

def configureSearch (search : Setting) : Configuring Unit :=
  modify fun packer =>
    { packer with
      search := match search with
        | .text _ => .list none [search]
        | search => search }

def configureProcessors (register : Setting) : Configuring Unit := do
  let (processors, error) := Setting.Members.update Processor.registrations register
  modify fun packer => { packer with processors }
  check error

def configureDefault (extension processors : Setting) : Configuring Unit := do
  let processors : Setting :=
    match processors with
    | .text _ => .list none [processors]
    | processors => processors
  match processors.elements? with
  | none => throw .wrongKind
  | some names =>
      let packer ← get
      ExceptT.mk (pure (names.forM packer.checkProcessor))
      set { packer with defaults := packer.defaults.put extension processors }

def configureDefaults (defaults : Setting) : Configuring Unit := do
  modify fun packer => { packer with defaults := standardDefaults }
  match defaults.members? with
  | some members => members.forM fun member => configureDefault member.1 member.2
  | none => throw .notObject

def configureSeparators (separators : Setting) : Configuring Unit := do
  let (separators, error) := standardSeparators.update separators
  modify fun packer => { packer with separators }
  check error

def resolvedOptions (packer : Packer) (current : Text) (options : Options) :
    Except Failure Options := do
  let resolved (path : Setting) : Except Failure Setting := do
    return .text (packer.fromBase current (← path.toText))
  let modules ← options.modules.mapM resolved
  let root ← if options.root.truthy then resolved options.root else pure options.root
  return { options with modules, root }

def configureOptions (current : Text) (config : Setting) : Configuring Unit := do
  let options ← ExceptT.mk (pure (Options.ofConfig config []))
  let packer ← get
  let options ← ExceptT.mk (pure (packer.resolvedOptions current options))
  let searchPath ← ExceptT.mk (pure
    (SearchPath.ofConfig current options.modules options.root options.debug))
  set { packer with options, searchPath }

/-- Takes over all parts of a configuration in order. -/
def configureParts (current : Text) (config : Setting.Members) : Configuring Unit := do
  let part (key : String) (default : Setting) : Setting := (config.at? key.text).getD default
  configureLocation (part "output" .null)
  configureSearch (part "search" (.text ['.']))
  modify fun packer => { packer with urlBase := part "prefix" (.text []) }
  configureProcessors (part "register" (.table none []))
  configureDefaults (part "defaults" (.table none []))
  configureSeparators (part "concat" (.table none []))
  modify fun packer => { packer with assets := part "assets" (.table none []) }
  configureOptions current (part "rebase" (.table none []))

def forgetFiles : Work Unit :=
  modify fun workspace =>
    { workspace with resolutions := .empty, names := .empty, assets := [] }

/-- The packer with a configuration taken over, and whether all of it could be. -/
def configure (packer : Packer) (config : Setting.Members) :
    StateM Workspace (Except Failure Unit × Packer) := do
  unless ((config.at? "output".text).getD .null).truthy do
    modify fun workspace =>
      { workspace with files := workspace.files.makeDirectories ephemeralLocation }
  let current := (← get).files.current
  let (outcome, packer) := (configureParts current config).run.run packer
  if let .ok () := outcome then
    discard forgetFiles.run
  return (outcome, packer)

def urlOf (packer : Packer) (path : Text) : Work Text := do
  let name ← Work.digestName path
  match packer.urlBase with
  | .text base => Work.lift ((Url.join base name).mapError .url)
  | base => if base.truthy then throw .wrongKind else return name

def rebaser (packer : Packer) : Rebaser where
  options := packer.options
  searchPath := packer.searchPath
  nameFile := packer.urlOf

def withDebug (packer : Packer) : Packer :=
  { packer with
    options := { packer.options with debug := true }
    searchPath := { packer.searchPath with debug := true } }

/-- A member of a configuration, unless it says nothing. -/
def member (key : String) (isTold : Bool) (value : Setting) : Setting.Members :=
  if isTold then [(.text key.text, value)] else []

/-- The configuration that the packer was given, without what goes without saying. -/
def toConfig (packer : Packer) : Setting.Members :=
  let told (standard entries : Setting.Members) : Setting.Members :=
    entries.filter fun (key, value) =>
      match standard.get? key with
      | none => true
      | some other => !value.same other
  let defaults := told standardDefaults packer.defaults
  let separators := told standardSeparators packer.separators
  let register :=
    packer.processors.filter fun entry => (Processor.registrations.get? entry.1).isNone
  let options := told ({} : Options).toConfig packer.options.toConfig
  [(.text "assets".text, packer.assets)] ++
    member "output" (!packer.ephemeral) packer.location ++
    member "search" (!packer.search.same (.list none [.text ['.']])) packer.search ++
    member "prefix" packer.urlBase.truthy packer.urlBase ++
    member "register" (!register.isEmpty) (.table none register) ++
    member "defaults" (!defaults.isEmpty) (.table none defaults) ++
    member "concat" (!separators.isEmpty) (.table none separators) ++
    member "rebase" (!options.isEmpty) (.table none options)

end Packer

end UrlRebase
