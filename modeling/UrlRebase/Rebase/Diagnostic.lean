import UrlRebase.Text.Basic

/-!
# Diagnostics

What is worth telling about a style sheet that was rebased none the less.  Places are shown
counted from one.
-/

namespace UrlRebase

/-- The kinds of diagnostics. -/
inductive DiagnosticKind where
  /-- A referenced file does not exist or cannot be read. -/
  | assetNotFound
  | malformedSourceMap
  /-- A reference that is written wrongly; scanning passes over these, so none is made. -/
  | malformedToken
  /-- A reference leads to more than one file. -/
  | resolutionAmbiguous
  /-- The style sheet's source map does not say where a reference comes from. -/
  | unmappedPosition
deriving DecidableEq, Repr

namespace DiagnosticKind

def all : List DiagnosticKind :=
  [.assetNotFound, .malformedSourceMap, .malformedToken, .resolutionAmbiguous,
    .unmappedPosition]

def name : DiagnosticKind → Text
  | .assetNotFound => "asset-not-found".text
  | .malformedSourceMap => "malformed-source-map".text
  | .malformedToken => "malformed-token".text
  | .resolutionAmbiguous => "resolution-ambiguous".text
  | .unmappedPosition => "unmapped-position".text

def ofName? (name : Text) : Option DiagnosticKind :=
  all.find? (·.name = name)

end DiagnosticKind

/-- A remark on a style sheet, and the line and column it is about, if it has any. -/
structure Diagnostic where
  kind : DiagnosticKind
  message : Text
  line : Option Int := none
  column : Option Int := none
deriving DecidableEq, Repr

namespace Diagnostic

/-- The place of a diagnostic, counted from one; nothing if it has no line. -/
def location (diagnostic : Diagnostic) : Text :=
  match diagnostic.line with
  | none => []
  | some line =>
      Text.ofInt (line + 1) ++ ":".text ++ Text.ofInt (diagnostic.column.getD 0 + 1)

def toText (diagnostic : Diagnostic) : Text :=
  let place :=
    if diagnostic.line.isSome then " at ".text ++ diagnostic.location else []
  diagnostic.kind.name ++ place ++ ": ".text ++ diagnostic.message

end Diagnostic

end UrlRebase
