import UrlRebase.Asset.Source

/-!
# Where references may lead

A search path knows the module directories and the root directory.  The path of a reference
leads to candidates: one in each module directory behind a tilde, one below the root
directory behind a slash, and one below the directory of the source otherwise.  The path
is decoded first, its escapes and then its percent signs.
-/

namespace UrlRebase

/-- What became of a reference. -/
inductive Resolution where
  /-- The reference names no file. -/
  | ignored
  /-- None of the candidates is a file. -/
  | notFound (candidates : List Text)
  /-- The first of the candidates that is a file, and the others that are. -/
  | found (path : Text) (candidates shadowed : List Text)
deriving DecidableEq, Repr

namespace Resolution

def candidates : Resolution → List Text
  | .ignored => []
  | .notFound candidates => candidates
  | .found _ candidates _ => candidates

def path? : Resolution → Option Text
  | .found path _ _ => some path
  | _ => none

/-- The files that were passed over for the one that was found. -/
def shadowed : Resolution → List Text
  | .found _ _ shadowed => shadowed
  | _ => []

def isFound (resolution : Resolution) : Bool :=
  resolution.path?.isSome

/-- The outcome for candidates of which some are files. -/
def ofFiles (candidates files : List Text) : Resolution :=
  match files with
  | [] => .notFound candidates
  | path :: shadowed => .found path candidates shadowed

theorem mem_of_path?_ofFiles
    {candidates files : List Text} {path : Text}
    (h : (ofFiles candidates files).path? = some path) : path ∈ files := by
  cases files with
  | nil => cases h
  | cons first shadowed =>
      obtain rfl := Option.some.inj h
      exact List.mem_cons_self

end Resolution

/-- The directories to look in, all absolute. -/
structure SearchPath where
  modules : List Text
  root : Option Text
  /-- Whether lookups are logged. -/
  debug : Bool := false
deriving DecidableEq, Repr

namespace SearchPath

def directory (current : Text) : Setting → Except Failure Text
  | .text path => .ok (Path.absolute current path)
  | _ => .error .wrongKind

def ofConfig (current : Text) (modules : List Setting) (root : Setting) (debug : Bool) :
    Except Failure SearchPath := do
  let modules ← modules.mapM (directory current)
  let root ← if root.truthy then (directory current root).map some else .ok none
  return { modules, root, debug }

/-- The character that a path relative to the module directories starts with. -/
def moduleMark : CodePoint := '~'

/-- The paths that a payload path may mean, in order. -/
def candidates (searchPath : SearchPath) (current directory path : Text) :
    Except Failure (List Text) :=
  let path := Percent.decode (unescape path)
  if path.head? = some moduleMark then
    let below := path.tail.dropWhile (· = .char '/')
    .ok (searchPath.modules.map fun root => Path.absolute current (Path.join root below))
  else if Path.isAbsolute path then
    match searchPath.root with
    | none => .error .noRoot
    | some root =>
        .ok [Path.absolute current (Path.join root (path.dropWhile (· = .char '/')))]
  else .ok [Path.absolute current (Path.join directory path)]

/-- What the outcome of a lookup depends on besides the files. -/
structure Key where
  /-- The directory of the source, if the path is relative to it. -/
  directory : Option Text
  path : Text
  modules : List Text
  root : Option Text
deriving DecidableEq, Repr

def key (searchPath : SearchPath) (directory path : Text) : Key where
  directory :=
    if path.head? = some moduleMark ∨ Path.isAbsolute path then none else some directory
  path
  modules := searchPath.modules
  root := searchPath.root

end SearchPath

end UrlRebase
