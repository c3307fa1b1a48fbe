import UrlRebase.Text.Basic

/-!
# Paths

Paths are texts with slashes between their segments.  All operations are lexical: they
look at no file system, and a segment `..` takes back the segment before it.

A path that starts with exactly two slashes keeps both when it is normalised; one slash,
or three and more, count as one.
-/

namespace UrlRebase.Path

def isAbsolute (path : Text) : Bool :=
  path.head? = some (.char '/')

/-- A path taken relative to a directory; an absolute path discards the directory. -/
def join (directory path : Text) : Text :=
  if isAbsolute path then path
  else if directory = [] ∨ directory.getLast? = some (.char '/') then directory ++ path
  else directory ++ "/".text ++ path

/-- The slashes that a normalised path starts with. -/
def rootMark (path : Text) : Text :=
  match path with
  | '/' :: '/' :: '/' :: _ => ['/']
  | '/' :: '/' :: _ => ['/', '/']
  | '/' :: _ => ['/']
  | _ => []

/-- Whether a segment stays where it is. -/
def isIdle (segment : Text) : Bool :=
  segment = [] || segment = ".".text

/-- Goes one segment on from a place, which is given by its segments, the last one first.
Going up from the root stays there, and otherwise going up from nowhere is kept. -/
def step (rooted : Bool) (stack : List Text) (segment : Text) : List Text :=
  if isIdle segment then stack
  else if segment ≠ "..".text then segment :: stack
  else
    match stack with
    | [] => if rooted then [] else [segment]
    | top :: below => if top = "..".text then segment :: stack else below

/-- The segments of a path with the idle ones dropped and the upward ones carried out. -/
def segments (path : Text) : List Text :=
  ((Text.fields '/' path).foldl (step (isAbsolute path)) []).reverse

/-- The shortest spelling of a path; the empty path is the current directory. -/
def normalize (path : Text) : Text :=
  let normal := rootMark path ++ Text.joined ['/'] (segments path)
  if normal = [] then ['.'] else normal

/-- A path from the root, relative paths being taken relative to a current directory. -/
def absolute (current path : Text) : Text :=
  normalize (if isAbsolute path then path else join current path)

/-- The part of a path up to its last slash. -/
def upToSlash (path : Text) : Text :=
  (path.reverse.dropWhile (· ≠ .char '/')).reverse

/-- The part of a path behind its last slash. -/
def basename (path : Text) : Text :=
  (path.reverse.takeWhile (· ≠ .char '/')).reverse

/-- The part of a path before its last slash; slashes alone stay. -/
def dirname (path : Text) : Text :=
  let head := upToSlash path
  if head.all (· = .char '/') then head else Text.trimRight (· = .char '/') head

/-- The last dot of a path's last segment and what follows it, and the path before it.
Dots that start the segment start no extension. -/
def splitExtension (path : Text) : Text × Text :=
  let name := basename path
  match Text.cutLast? '.' name with
  | none => (path, [])
  | some (stem, suffix) =>
      if stem.all (· = .char '.') then (path, [])
      else (upToSlash path ++ stem, '.' :: suffix)

/-- The extension of a path with its dot, or nothing. -/
def extension (path : Text) : Text :=
  (splitExtension path).2

def names (path : Text) : List Text :=
  (Text.fields '/' path).filter (· ≠ [])

/-- What is left of two lists behind the longest start that they share. -/
def dropShared : List Text → List Text → List Text × List Text
  | left :: lefts, right :: rights =>
      if left = right then dropShared lefts rights else (left :: lefts, right :: rights)
  | lefts, rights => (lefts, rights)

/-- The way from a directory to a path, both taken from the root first. -/
def relative (current path directory : Text) : Text :=
  let (down, up) :=
    dropShared (names (absolute current path)) (names (absolute current directory))
  let way := up.map (fun _ => "..".text) ++ down
  if way = [] then ['.'] else Text.joined ['/'] way

end UrlRebase.Path
