import UrlRebase.Asset.DigestName
import UrlRebase.Asset.Lookup
import UrlRebase.Rebase.Payload
import UrlRebase.Rebase.StyleSheet

/-!
# Rebasing style sheets

Each reference of a style sheet is traced to the source where it was written, resolved from
that source's directory, and rebased.  What goes wrong with one reference becomes a
diagnostic and the reference stays as it is; only a fault of the program or of a source map
that was given ready-made ends the whole.
-/

namespace UrlRebase

/-- The options, where to look for files, and how to name them after their content. -/
structure Rebaser where
  options : Options
  searchPath : SearchPath
  nameFile : Text → Work Text

/-- What a token becomes, what there is to say about it, and the file that it names. -/
structure RebasedToken where
  text : Text
  diagnostics : List Diagnostic := []
  asset : Option Text := none
deriving DecidableEq, Repr

def Diagnostic.at (token : Token) (kind : DiagnosticKind) (message : Text) : Diagnostic :=
  { kind, message, line := some token.place.line, column := some token.place.column }

namespace Rebaser

def ofOptions (options : Options) (nameFile : Text → Work Text) : Work Rebaser := do
  let current ← Work.current
  let searchPath ←
    Work.lift (SearchPath.ofConfig current options.modules options.root options.debug)
  return { options, searchPath, nameFile }

/-- The style sheet's source map; a malformed one is told of and ignored. -/
def readMap (sheet : StyleSheet) : Except Failure (Option SourceMap × List Diagnostic) :=
  match sheet.map with
  | none => .ok (none, [])
  | some given =>
      match SourceMap.load given with
      | .ok map => .ok (some map, [])
      | .error (.malformed error) =>
          .ok (none, [{ kind := .malformedSourceMap
                        message := "Ignoring incoming source map: ".text ++
                          error.message }])
      | .error error => .error (.ofLoad error)

/-- The directory that a reference is relative to. -/
def referenceDirectory (current : Text) (sheet : StyleSheet) (lineage : Lineage)
    (origin : Origin) : Except Failure Text :=
  match lineage.map with
  | none => .ok (sheet.directory current)
  | some map =>
      if origin.mapped then
        directoryOfSource current origin.source (sheet.directory current) map.root
      else .ok (sheet.directory current)

/-- What there is to say about the origin of a token. -/
def unmappedDiagnostics (sheet : StyleSheet) (origin : Origin) (token : Token) :
    List Diagnostic :=
  if origin.mapped then []
  else
    [.at token .unmappedPosition <| "No source mapping for url(".text ++ token.raw ++
      "); resolving from ".text ++ sheet.path]

/-- The diagnostic on a token without a file. -/
def notFoundDiagnostic (origin : Origin) (token : Token) (candidates : List Text) :
    Diagnostic :=
  .at token .assetNotFound <| "Cannot resolve ".text ++ token.raw ++ " from ".text ++
    origin.source ++ "; tried ".text ++
    (if candidates = [] then "no module roots".text
      else Text.joined [',', ' '] candidates)

def ambiguousDiagnostics (token : Token) (path : Text) (shadowed : List Text) :
    List Diagnostic :=
  if shadowed = [] then []
  else
    [.at token .resolutionAmbiguous <| token.raw ++ " resolved to ".text ++ path ++
      ", shadowing ".text ++ Text.joined [',', ' '] shadowed]

def unreadableDiagnostic (token : Token) (path : Text) (error : FileError) : Diagnostic :=
  .at token .assetNotFound <| "Cannot read ".text ++ path ++ ": ".text ++
    error.message

def rebaseResolved (rebaser : Rebaser) (origin : Origin) (token : Token)
    (resolution : Resolution) : Work RebasedToken := do
  match resolution with
  | .ignored => return { text := token.raw }
  | .notFound candidates =>
      return { text := token.raw, diagnostics := [notFoundDiagnostic origin token candidates] }
  | .found path _ shadowed =>
      let ambiguous := ambiguousDiagnostics token path shadowed
      let options := rebaser.options
      match ← Work.attempt
          (token.rebase rebaser.nameFile options.mode options.keepQuery resolution) with
      | .ok text => return { text, diagnostics := ambiguous, asset := some path }
      | .error (.file error) =>
          return { text := token.raw
                   diagnostics := ambiguous ++ [unreadableDiagnostic token path error] }
      | .error error => throw error

def rebaseToken (rebaser : Rebaser) (sheet : StyleSheet) (lineage : Lineage) (token : Token) :
    Work RebasedToken := do
  let place : Position := ⟨token.place.line, token.place.column⟩
  let origin ← Work.lift ((lineage.origin place).mapError .mapUse)
  let unmapped := unmappedDiagnostics sheet origin token
  if !rebaser.options.attemptResolve then return { text := token.raw, diagnostics := unmapped }
  let directory ← Work.lift (referenceDirectory (← Work.current) sheet lineage origin)
  let resolution ← rebaser.searchPath.resolve directory token.payload
  let rebased ← rebaser.rebaseResolved origin token resolution
  return { rebased with diagnostics := unmapped ++ rebased.diagnostics }

def scannedText (rebaser : Rebaser) (sheet : StyleSheet) : Text :=
  if rebaser.options.dropReturns then sheet.text.dropReturns else sheet.text

def outgoingMap (rebaser : Rebaser) (text : Text) (edits : List Edit) (lineage : Lineage) :
    Except Failure (Option SourceMap) :=
  if !rebaser.options.sourceMap then .ok none
  else
    match edits, lineage.map with
    | [], some map => .ok (some map)
    | _, _ =>
        ((Edit.editedMap text edits lineage rebaser.options.granularity).map some).mapError .mapUse

/-- Fails unless every rebased reference reads back as one reference. -/
def checkCount (sheet : StyleSheet) (edits : List Edit) (output : Text) :
    Except Failure Unit :=
  let count := (Token.scan output).length
  if count = edits.length then .ok ()
  else
    .error <| .invariant <| sheet.path ++ ": ".text ++ Text.ofNat edits.length ++
      " url() tokens rewritten but ".text ++ Text.ofNat count ++
      " found in the output".text

def run (rebaser : Rebaser) (sheet : StyleSheet) : Work RebasedSheet := do
  let text := rebaser.scannedText sheet
  let (map, remarks) ← Work.lift (readMap sheet)
  let lineage : Lineage := ⟨map, sheet.sourceName⟩
  let tokens := Token.scan text
  let rebased ← tokens.mapM (rebaser.rebaseToken sheet lineage)
  let edits := tokens.zipWith (fun token rebased => ⟨token, rebased.text⟩) rebased
  let output := Edit.splice text edits
  Work.lift (checkCount sheet edits output)
  let map ← Work.lift (rebaser.outgoingMap text edits lineage)
  let diagnostics := remarks ++ rebased.flatMap (·.diagnostics)
  unless rebaser.options.silent do
    for diagnostic in diagnostics do
      Work.log .warning (sheet.path ++ ": ".text ++ diagnostic.toText)
  return { text := output, map, assets := (rebased.filterMap (·.asset)).eraseDups, diagnostics }

end Rebaser

def rebase (config : Setting) (sheet : StyleSheet) : Work RebasedSheet := do
  let options ← Work.lift (Options.ofConfig config [])
  let rebaser ← Rebaser.ofOptions options Work.digestName
  rebaser.run sheet

end UrlRebase
