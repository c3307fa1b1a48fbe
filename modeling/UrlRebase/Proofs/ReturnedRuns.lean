import UrlRebase.Proofs.BlindWork
import UrlRebase.Proofs.RebasedRun

/-!
# Runs that return

A run of a rebaser that returns has read the map, rebased the references one after the
other, spliced what became of them into the text and made the outgoing map; behind that it
only adds to the log.  Rebasing one reference traces it, resolves it from the directory of
its source, and spells the file that was found.
-/

namespace UrlRebase

open Work

theorem Work.exists_runs_of_isOk
    {α : Type} (action : Work α) (before : Workspace)
    (h : (action.run.run before).1.isOk = true) :
    ∃ a, Runs action before (.ok a) (action.run.run before).2 := by
  unfold Runs
  cases hrun : action.run.run before with
  | mk result after =>
      rw [hrun] at h
      cases result with
      | ok value => exact ⟨value, rfl⟩
      | error error => simp [Except.isOk, Except.toBool] at h

def SearchPath.answer (searchPath : SearchPath) (files : FileSystem) (directory : Text)
    (payload : Payload) : Except Failure Resolution :=
  if namesNoFile payload.path searchPath.root then .ok .ignored
  else searchPath.outcome files directory payload.path

/-- Whether a workspace is another with something else in the log. -/
def Workspace.Logs (before after : Workspace) : Prop :=
  ∃ log, after = { before with log }

instance : IsPreorder Workspace Workspace.Logs where
  refl workspace := ⟨workspace.log, rfl⟩
  trans := by
    rintro before _ _ ⟨_, rfl⟩ ⟨log, rfl⟩
    exact ⟨log, rfl⟩

def RebasedToken.edits (tokens : List Token) (rebased : List RebasedToken) : List Edit :=
  tokens.zipWith (fun token rebased => ⟨token, rebased.text⟩) rebased

section Edits

variable {tokens : List Token} {rebased : List RebasedToken} {p : Token → RebasedToken → Prop}
  (h : List.Forall₂ p tokens rebased)
include h

theorem RebasedToken.map_token_edits : (edits tokens rebased).map Edit.token = tokens := by
  unfold edits
  induction h with
  | nil => rfl
  | cons hfirst hrest ih => simp [ih]

theorem RebasedToken.forall₂_edits :
    List.Forall₂ (fun edit rebased => p edit.token rebased ∧ edit.text = rebased.text)
      (edits tokens rebased) rebased := by
  unfold edits
  induction h with
  | nil => exact .nil
  | cons hfirst hrest ih => exact .cons ⟨hfirst, rfl⟩ ih

end Edits

namespace Rebaser

variable {rebaser : Rebaser} {sheet : StyleSheet} {before after : Workspace}

/-- What a run on a style sheet makes of what became of its tokens: the map that was read, the
remarks on it, and the style sheet that is returned. -/
structure Returned (rebaser : Rebaser) (sheet : StyleSheet) (map : Option SourceMap)
    (remarks : List Diagnostic) (rebased : List RebasedToken) (result : RebasedSheet) : Prop where
  read : readMap sheet = .ok (map, remarks)
  counted : checkCount sheet
    (RebasedToken.edits (Token.scan (rebaser.scannedText sheet)) rebased) result.text = .ok ()
  outgoing : rebaser.outgoingMap (rebaser.scannedText sheet)
    (RebasedToken.edits (Token.scan (rebaser.scannedText sheet)) rebased)
    ⟨map, sheet.sourceName⟩ = .ok result.map
  text : result.text = Edit.splice (rebaser.scannedText sheet)
    (RebasedToken.edits (Token.scan (rebaser.scannedText sheet)) rebased)
  assets : result.assets = (rebased.filterMap (·.asset)).eraseDups
  diagnostics : result.diagnostics = remarks ++ rebased.flatMap (·.diagnostics)

/-- A map is remarked on at most once, and only for being malformed. -/
theorem remarks_of_readMap
    {map : Option SourceMap} {remarks : List Diagnostic}
    (h : readMap sheet = .ok (map, remarks)) :
    remarks.length ≤ 1 ∧
      ∀ remark ∈ remarks, remark.kind = .malformedSourceMap ∧ remark.line = none := by
  unfold readMap at h
  split at h
  · obtain ⟨-, rfl⟩ := Prod.mk.inj (Except.ok.inj h)
    simp
  · split at h
    · obtain ⟨-, rfl⟩ := Prod.mk.inj (Except.ok.inj h)
      simp
    · obtain ⟨-, rfl⟩ := Prod.mk.inj (Except.ok.inj h)
      simp
    · cases h

/-- What a token becomes that comes from an origin and leads somewhere, if something came of
spelling it anew. -/
def settled (origin : Origin) (token : Token) (resolution : Resolution)
    (spelled : Except Failure Text) : Except Failure RebasedToken :=
  match resolution, spelled with
  | .ignored, _ => .ok { text := token.raw }
  | .notFound candidates, _ =>
      .ok { text := token.raw, diagnostics := [notFoundDiagnostic origin token candidates] }
  | .found path _ shadowed, .ok text =>
      .ok { text, diagnostics := ambiguousDiagnostics token path shadowed, asset := some path }
  | .found path _ shadowed, .error (.file error) =>
      .ok { text := token.raw
            diagnostics := ambiguousDiagnostics token path shadowed ++
              [unreadableDiagnostic token path error] }
  | .found .., .error error => .error error

/-- A token that leads to no file is spelt as it is. -/
theorem rebase_of_path?_eq_none
    {m : Type → Type} [Monad m] (nameFile : Text → m Text) (mode : Mode) (keepQuery : Bool)
    (token : Token) {resolution : Resolution} (h : resolution.path? = none) :
    token.rebase nameFile mode keepQuery resolution = pure token.raw := by
  unfold Token.rebase
  cases resolution with
  | found path candidates shadowed => simp [Resolution.path?] at h
  | _ => cases mode <;> rfl

/-- Every token may be spelt before it is told whether it leads to a file. -/
theorem rebaseResolved_eq (rebaser : Rebaser) (origin : Origin) (token : Token)
    (resolution : Resolution) :
    rebaser.rebaseResolved origin token resolution =
      Work.attempt (token.rebase rebaser.nameFile rebaser.options.mode rebaser.options.keepQuery
        resolution) >>= fun spelled => Work.lift (settled origin token resolution spelled) := by
  have hattempt (text : Text) : Work.attempt (pure text) = pure (.ok text) := rfl
  unfold rebaseResolved
  cases resolution with
  | ignored =>
      rw [rebase_of_path?_eq_none _ _ _ _ rfl, hattempt, pure_bind]
      rfl
  | notFound candidates =>
      rw [rebase_of_path?_eq_none _ _ _ _ rfl, hattempt, pure_bind]
      rfl
  | found path candidates shadowed =>
      refine bind_congr fun spelled => ?_
      rcases spelled with error | text
      · cases error <;> rfl
      · rfl

theorem leads_logs_log (level : LogLevel) (message : Text) (workspace : Workspace) :
    Leads Workspace.Logs (Work.log level message) workspace fun _ _ => True :=
  Leads.of_modify ⟨_, rfl⟩ trivial

theorem exists_of_run
    {result : RebasedSheet} (h : Runs (rebaser.run sheet) before (.ok result) after) :
    ∃ map remarks rebased between,
      Returned rebaser sheet map remarks rebased result ∧
      Runs
        ((Token.scan (rebaser.scannedText sheet)).mapM
          (rebaser.rebaseToken sheet ⟨map, sheet.sourceName⟩))
        before (.ok rebased) between ∧
      between.Logs after := by
  unfold run at h
  obtain ⟨⟨map, remarks⟩, hread, h⟩ := exists_of_lift_bind h
  obtain ⟨rebased, between, htokens, h⟩ := exists_of_bind h
  obtain ⟨_, hcounted, h⟩ := exists_of_lift_bind h
  obtain ⟨outgoing, houtgoing, h⟩ := exists_of_lift_bind h
  refine ⟨map, remarks, rebased, between, ?_⟩
  simp only at h
  split at h
  · obtain ⟨rfl, rfl⟩ := eq_of_pure h
    exact ⟨⟨hread, hcounted, houtgoing, rfl, rfl, rfl⟩, htokens, refl _⟩
  · obtain ⟨_, logged, hlog, h⟩ := exists_of_bind h
    obtain ⟨rfl, rfl⟩ := eq_of_pure h
    exact ⟨⟨hread, hcounted, houtgoing, rfl, rfl, rfl⟩, htokens,
      (Leads.forIn (fun _ _ between => leads_logs_log _ _ between) _ _ hlog).1⟩

/-- A returning run of `rebaseToken` with resolving on. -/
theorem exists_of_rebaseToken
    {lineage : Lineage} {token : Token} {rebased : RebasedToken}
    (hattempt : rebaser.options.attemptResolve = true)
    (h : Runs (rebaser.rebaseToken sheet lineage token) before (.ok rebased) after) :
    ∃ origin directory resolution between outcome,
      lineage.origin ⟨token.place.line, token.place.column⟩ = .ok origin ∧
      referenceDirectory before.files.current sheet lineage origin = .ok directory ∧
      Runs (rebaser.searchPath.resolve directory token.payload) before (.ok resolution)
        between ∧
      Runs (rebaser.rebaseResolved origin token resolution) between (.ok outcome) after ∧
      rebased = { outcome with
        diagnostics := unmappedDiagnostics sheet origin token ++ outcome.diagnostics } := by
  unfold rebaseToken at h
  obtain ⟨origin, horigin, h⟩ := exists_of_lift_bind h
  simp only [hattempt, Bool.not_true, if_false, Bool.false_eq_true] at h
  obtain ⟨current, _, hcurrent, h⟩ := exists_of_bind h
  obtain ⟨rfl, rfl⟩ := eq_of_current hcurrent
  obtain ⟨directory, hdirectory, h⟩ := exists_of_lift_bind h
  obtain ⟨resolution, between, hresolution, h⟩ := exists_of_bind h
  obtain ⟨outcome, _, houtcome, h⟩ := exists_of_bind h
  obtain ⟨rfl, rfl⟩ := eq_of_pure h
  exact ⟨origin, directory, resolution, between, outcome, Except.mapError_eq_ok.mp horigin,
    hdirectory, hresolution, houtcome, rfl⟩

end Rebaser

end UrlRebase
