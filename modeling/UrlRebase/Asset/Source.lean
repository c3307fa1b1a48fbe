import UrlRebase.Failure
import UrlRebase.Text.Percent

/-!
# Names of files in references and source maps

A reference names a file unless it is empty, has a scheme or an authority, or starts at
the root where no root directory is known.  A source of a source map may be a URL; then
its path counts, which for other schemes than `file` is relative to the project.
-/

namespace UrlRebase

/-- Whether a character may start a scheme.  Besides the ASCII letters these are the four
characters whose case variants are ASCII letters. -/
def isSchemeStart (c : CodePoint) : Bool :=
  c.isAlpha || [0x130, 0x131, 0x17F, 0x212A].contains c.toNat

def isSchemePart (c : CodePoint) : Bool :=
  isSchemeStart c || c.isDigit || c = '+' || c = '.' || c = '-'

/-- What follows the scheme of a text, from its colon on, if it starts with a scheme. -/
def behindScheme? : Text → Option Text
  | [] => none
  | c :: rest =>
      if isSchemeStart c then
        match rest.dropWhile isSchemePart with
        | ':' :: behind => some (':' :: behind)
        | _ => none
      else none

/-- Whether the path of a reference names no file. -/
def namesNoFile (path : Text) (root : Option Text) : Bool :=
  path = [] || (behindScheme? path).isSome || "//".text.isPrefixOf path ||
    (Path.isAbsolute path && root.isNone)

/-- The path of a source, which may be given as a URL. -/
def sourcePath (source : Text) : Except Url.Error Text :=
  match behindScheme? source with
  | some (_ :: '/' :: '/' :: _) => do
      let url ← Url.split [] source
      let path := Percent.decode url.path
      return if url.scheme = "file".text then path else path.dropWhile (· = .char '/')
  | _ => .ok source

/-- A path taken relative to the root of a source map, unless it is absolute. -/
def underRoot (root : Json) (path : Text) : Except Failure Text :=
  if root.truthy && !Path.isAbsolute path then
    match root with
    | .string root => .ok (Path.join root path)
    | _ => .error .wrongKind
  else .ok path

/-- The directory of a source that the map of a style sheet names.  It is relative to the
root of the map, and that to the directory of the style sheet. -/
def directoryOfSource (current source directory : Text) (root : Json) : Except Failure Text := do
  let path ← (sourcePath source).mapError .url
  let path ← underRoot root path
  return Path.dirname (Path.absolute current (Path.join directory path))

end UrlRebase
