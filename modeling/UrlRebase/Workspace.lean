import UrlRebase.Asset.Cache
import UrlRebase.Asset.Resolution

/-!
# Workspaces

A workspace is everything that an operation changes: the files, the caches, the counts of
accesses to files, and the log.  `Work` is a computation on a workspace that may fail; what
it changed before it failed stays changed.
-/

namespace UrlRebase

/-- How grave a log entry is, or that it is the command of another program. -/
inductive LogLevel where
  | debug
  | warning
  | error
  | command
deriving DecidableEq, Repr

/-- A line of the log. -/
structure LogEntry where
  level : LogLevel
  message : Text
deriving DecidableEq, Repr

/-- Files, caches and the log. -/
structure Workspace where
  files : FileSystem
  /-- How often it was asked whether something is a file. -/
  lookups : Nat := 0
  /-- How often a file was read to be named after its content. -/
  reads : Nat := 0
  resolutions : Cache SearchPath.Key Resolution := .empty
  /-- Names after contents, by path. -/
  names : Cache Text Text := .empty
  log : List LogEntry := []
  /-- The files that packed style sheets were found to name, without repetition. -/
  assets : List Text := []
  /-- The paths written to, as the file system keeps them. -/
  written : List Text := []

/-- A computation on a workspace. -/
abbrev Work (α : Type) : Type :=
  ExceptT Failure (StateM Workspace) α

namespace Work

/-- The value of a computation that changes nothing, or its failure. -/
def lift {α : Type} (result : Except Failure α) : Work α :=
  ExceptT.mk (pure result)

/-- Runs a computation and gives its outcome.  What it changed stays changed. -/
def attempt {α : Type} (action : Work α) : Work (Except Failure α) :=
  ExceptT.lift action.run

def log (level : LogLevel) (message : Text) : Work Unit :=
  modify fun workspace => { workspace with log := workspace.log ++ [⟨level, message⟩] }

def current : Work Text :=
  return (← get).files.current

def isFile (path : Text) : Work Bool := do
  modify fun workspace => { workspace with lookups := workspace.lookups + 1 }
  return (← get).files.isFile path

def exists? (path : Text) : Work Bool :=
  return (← get).files.exists? path

def read (path : Text) : Work ByteArray := do
  lift <| ((← get).files.read path).mapError .file

/-- The text of a file, with every line break a newline. -/
def readText (path : Text) : Work Text := do
  match Utf8.decode? (← read path) with
  | none => throw .undecodable
  | some text => return text.unifyBreaks

def write (path : Text) (bytes : ByteArray) : Work Unit := do
  let workspace ← get
  match workspace.files.write path bytes with
  | .error error => throw (.file error)
  | .ok files =>
      set { workspace with files, written := workspace.written ++ [files.key path] }

def writeText (path text : Text) : Work Unit :=
  match Utf8.encode? text with
  | none => throw .unencodable
  | some bytes => write path bytes

def makeDirectories (path : Text) : Work Unit :=
  modify fun workspace => { workspace with files := workspace.files.makeDirectories path }

end Work

end UrlRebase
