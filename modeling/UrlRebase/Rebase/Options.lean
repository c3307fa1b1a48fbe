import UrlRebase.Edit.EditedMap
import UrlRebase.Failure
import UrlRebase.Text.Lower

/-!
# Options

What a configuration may say about rebasing.  A configuration is an object; in its keys
dashes stand for underscores.  `ofConfig` refuses a key that is no option and a mode or a
granularity that does not exist, and takes any value where a truth value is asked.
`toConfig` writes all options back.
-/

namespace UrlRebase

/-- What a rebased reference names its file by. -/
inductive Mode where
  /-- The absolute path of the file. -/
  | absolute
  /-- A name after the file's content. -/
  | contentDerived
  /-- The reference as it was written. -/
  | keep
deriving DecidableEq, Repr

namespace Mode

/-- All modes, in the order in which messages list them. -/
def all : List Mode := [.absolute, .contentDerived, .keep]

def name : Mode → Text
  | .absolute => "absolute".text
  | .contentDerived => "content-derived".text
  | .keep => "keep".text

def ofName? (name : Text) : Option Mode :=
  all.find? (·.name = name)

end Mode

/-- The options of rebasing. -/
structure Options where
  mode : Mode := .absolute
  /-- Whether rebased references keep their queries. -/
  keepQuery : Bool := true
  /-- Whether references are resolved at all. -/
  attemptResolve : Bool := true
  granularity : Granularity := .start
  /-- The module directories, as configured. -/
  modules : List Setting := []
  /-- The root directory, as configured. -/
  root : Setting := .null
  /-- Whether a source map is made. -/
  sourceMap : Bool := true
  /-- Whether diagnostics stay out of the log. -/
  silent : Bool := false
  /-- Whether lookups are logged. -/
  debug : Bool := false
  /-- Whether carriage returns before newlines are dropped. -/
  dropReturns : Bool := false

namespace Options

def keys : List Text :=
  ["mode", "keep_query", "attempt_resolve", "granularity", "modules", "root", "source_map",
    "silent", "debug", "remove_cr"].map String.text

/-- The key that a configuration means, with underscores for dashes. -/
def canonicalKey (key : Text) : Text :=
  key.map fun (c : CodePoint) => if c = '-' then '_' else c

/-- The choice that a value names in any letter case. -/
def choose {α : Type} (option : String) (all : List α) (name : α → Text) (value : Setting) :
    Except Failure α := do
  let given ← value.toText
  match all.find? fun choice => name choice = Text.lower given with
  | some choice => return choice
  | none => throw (.unknownChoice option.text given (all.map name))

/-- The module directories that a setting lists; a text is one directory. -/
def moduleList : Setting → Except Failure (List Setting)
  | .text path => .ok [.text path]
  | value =>
      if value.truthy then
        match value.elements? with
        | none => .error .badOptions
        | some elements => .ok elements
      else .ok []

def ofSettings (settings : Setting.Members) : Except Failure Options := do
  let isKnown (key : Setting) : Bool := keys.any fun known => key.same (.text known)
  if settings.any fun setting => !isKnown setting.1 then throw .badOptions
  let given (key : String) : Option Setting := settings.at? key.text
  let flag (key : String) (default : Bool) : Bool :=
    ((given key).map Setting.truthy).getD default
  let mode ←
    match given "mode" with
    | none => pure .absolute
    | some value => choose "mode" Mode.all Mode.name value
  let granularity ←
    match given "granularity" with
    | none => pure .start
    | some value => choose "granularity" Granularity.all Granularity.name value
  let modules ← moduleList ((given "modules").getD .null)
  return {
    mode
    keepQuery := flag "keep_query" true
    attemptResolve := flag "attempt_resolve" true
    granularity
    modules
    root := (given "root").getD .null
    sourceMap := flag "source_map" true
    silent := flag "silent" false
    debug := flag "debug" false
    dropReturns := flag "remove_cr" false }

def optionKey : Setting → Except Failure Setting
  | .text key => .ok (.text (canonicalKey key))
  | .bytes _ | .date .. | .moment .. => .error .wrongKind
  | _ => .error .notObject

/-- The members of a configuration; a setting that counts as false has none. -/
def configMembers : Setting → Except Failure Setting.Members
  | .table mark members => .ok (Setting.membersOf mark members)
  | value => if value.truthy then .error .notObject else .ok []

/-- The options that a configuration describes, where overrides by canonical keys go
before the configuration. -/
def ofConfig (config : Setting) (overrides : Setting.Members) : Except Failure Options := do
  let members ← configMembers config
  let settings ← members.mapM fun (key, value) => do return (← optionKey key, value)
  ofSettings (.ofAssignments (settings ++ overrides))

def toConfig (options : Options) : Setting.Members :=
  [("mode", .text options.mode.name),
    ("keep_query", .bool options.keepQuery),
    ("attempt_resolve", .bool options.attemptResolve),
    ("granularity", .text options.granularity.name),
    ("modules", .list none options.modules),
    ("root", options.root),
    ("source_map", .bool options.sourceMap),
    ("silent", .bool options.silent),
    ("debug", .bool options.debug),
    ("remove_cr", .bool options.dropReturns)].map fun (key, value) => (.text key.text, value)

end Options

end UrlRebase
