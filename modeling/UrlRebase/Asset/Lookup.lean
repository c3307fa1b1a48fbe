import UrlRebase.Reference.Payload
import UrlRebase.Workspace

/-!
# Resolving references

Looks up which candidates are files.  The outcome is kept in the cache of the workspace
under the key of the lookup, so each candidate of a key is looked up once.
-/

namespace UrlRebase.SearchPath

def report (directory path : Text) (resolution : Resolution) : Text :=
  let tried :=
    if resolution.candidates = [] then "nothing".text
    else Text.joined [',', ' '] resolution.candidates
  "Resolving ".text ++ path ++ " from ".text ++ directory ++ ": tried ".text ++ tried ++
    " -> ".text ++ resolution.path?.getD "None".text

def lookUp (searchPath : SearchPath) (directory path : Text) : Work Resolution := do
  let candidates ← Work.lift (searchPath.candidates (← Work.current) directory path)
  let resolution := Resolution.ofFiles candidates (← candidates.filterM Work.isFile)
  if searchPath.debug then Work.log .debug (report directory path resolution)
  return resolution

/-- Looks up the path of a payload that stands in a source in the given directory, unless
it names no file. -/
def resolve (searchPath : SearchPath) (directory : Text) (payload : Payload) : Work Resolution :=
  if namesNoFile payload.path searchPath.root then return .ignored
  else
    Cache.fetch Workspace.resolutions
      (fun workspace resolutions => { workspace with resolutions })
      (searchPath.key directory payload.path) (searchPath.lookUp directory payload.path)

end UrlRebase.SearchPath
