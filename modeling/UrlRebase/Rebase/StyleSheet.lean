import UrlRebase.Edit.EditedMap
import UrlRebase.Path.Basic
import UrlRebase.Rebase.Diagnostic

/-!
# Style sheets

A style sheet to rebase, with the source map of whatever produced it, and the style sheet
that comes out.
-/

namespace UrlRebase

/-- A style sheet, the path it stands for, and its source map in any form. -/
structure StyleSheet where
  text : Text
  path : Text
  map : Option SourceMap.Given := none
  /-- The name that the style sheet has as a source, if not its path. -/
  source : Text := []

namespace StyleSheet

def sourceName (sheet : StyleSheet) : Text :=
  if sheet.source = [] then sheet.path else sheet.source

def directory (sheet : StyleSheet) (current : Text) : Text :=
  Path.dirname (Path.absolute current sheet.path)

end StyleSheet

/-- A style sheet after rebasing. -/
structure RebasedSheet where
  text : Text
  map : Option SourceMap
  /-- The files that references were found to name, without repetition. -/
  assets : List Text
  diagnostics : List Diagnostic

end UrlRebase
