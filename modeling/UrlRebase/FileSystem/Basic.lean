import UrlRebase.Path.Basic
import UrlRebase.Text.Quoted
import UrlRebase.Text.Utf8

/-!
# File systems

A file system is a value: files by their absolute paths, the directories that exist, a
clock, and the current directory from which relative paths are taken.  Every write moves
the clock on and stamps the file with it, so a later write has a later time.
-/

namespace UrlRebase

/-- A file's bytes, the time of its last change, and whether it may be read. -/
structure File where
  bytes : ByteArray
  time : Int
  readable : Bool := true

/-- Files and directories, and the time. -/
structure FileSystem where
  current : Text
  files : List (Text × File)
  directories : List Text
  clock : Int

/-- Why a file cannot be used; the path is as it was asked for. -/
inductive FileError where
  | isDirectory (path : Text)
  | notFound (path : Text)
  | denied (path : Text)
  /-- A failure of another kind, in words. -/
  | other (message : Text)
deriving DecidableEq, Repr

def FileError.message : FileError → Text
  | .isDirectory path => "[Errno 21] Is a directory: ".text ++ Text.literal path
  | .notFound path => "[Errno 2] No such file or directory: ".text ++ Text.literal path
  | .denied path => "[Errno 13] Permission denied: ".text ++ Text.literal path
  | .other message => message

namespace FileSystem

/-- The path under which a file system keeps what a path means. -/
def key (fs : FileSystem) (path : Text) : Text :=
  match Path.absolute fs.current path with
  | '/' :: '/' :: rest => '/' :: rest
  | path => path

def file? (fs : FileSystem) (path : Text) : Option File :=
  fs.files.lookup (fs.key path)

def isFile (fs : FileSystem) (path : Text) : Bool :=
  (fs.file? path).isSome

def isDirectory (fs : FileSystem) (path : Text) : Bool :=
  fs.directories.contains (fs.key path)

def exists? (fs : FileSystem) (path : Text) : Bool :=
  fs.isFile path || fs.isDirectory path

def read (fs : FileSystem) (path : Text) : Except FileError ByteArray :=
  if fs.isDirectory path then .error (.isDirectory path)
  else
    match fs.file? path with
    | some file => if file.readable then .ok file.bytes else .error (.denied path)
    | none => .error (.notFound path)

/-- The time of the last change at a path; a directory has not changed since the start. -/
def timeOf (fs : FileSystem) (path : Text) : Except FileError Int :=
  if fs.isDirectory path then .ok 0
  else
    match fs.file? path with
    | some file => .ok file.time
    | none => .error (.notFound path)

/-- A path and all directories above it, from the path upwards. -/
def ancestors (path : Text) : List Text :=
  let names := Path.names path
  (List.range (names.length + 1)).map fun n =>
    '/' :: Text.joined ['/'] (names.take (names.length - n))

def addDirectories (directories added : List Text) : List Text :=
  directories ++ added.filter fun path => !directories.contains path

def makeDirectories (fs : FileSystem) (path : Text) : FileSystem :=
  { fs with directories := addDirectories fs.directories (ancestors (fs.key path)) }

/-- Puts a file in place of the one with its key, or behind the others. -/
def put (key : Text) (file : File) : List (Text × File) → List (Text × File)
  | [] => [(key, file)]
  | (other, old) :: rest =>
      if other = key then (key, file) :: rest else (other, old) :: put key file rest

/-- Puts a file at a path, with all directories above it. -/
def place (fs : FileSystem) (path : Text) (file : File) : FileSystem :=
  let key := fs.key path
  { fs with
    files := put key file fs.files
    directories := addDirectories fs.directories (ancestors (Path.dirname key)) }

/-- Writes a file at the next time of the clock. -/
def write (fs : FileSystem) (path : Text) (bytes : ByteArray) :
    Except FileError FileSystem :=
  if fs.isDirectory path then .error (.isDirectory path)
  else
    let time := fs.clock + 1
    .ok ({ fs with clock := time }.place path { bytes, time })

def remove (fs : FileSystem) (path : Text) : FileSystem :=
  let key := fs.key path
  { fs with files := fs.files.filter fun entry => entry.1 ≠ key }

def list (fs : FileSystem) (path : Text) : List Text :=
  let key := fs.key path
  if fs.directories.contains key then
    let inside (path : Text) : Option Text :=
      if path ≠ "/".text ∧ Path.dirname path = key then some (Path.basename path) else none
    fs.files.filterMap (fun entry => inside entry.1) ++ fs.directories.filterMap inside
  else []

def empty (current : Text) : FileSystem where
  current
  files := []
  directories := [['/']]
  clock := 1000

end FileSystem

end UrlRebase
