import UrlRebase.Proofs.AccountedTokens
import UrlRebase.Proofs.RewriteModes

/-!
# Maps that are ignored

A style sheet whose map is malformed is rebased as if it had none.  A run reads the map first.
Behind that no step looks at what was given, but only at the map that was read, so the two runs
do the same to the same workspace, until they tell what there is to say.  The remark on the map
is told before all else.
-/

namespace UrlRebase

open Work

def RebasedSheet.withRemarks (result : RebasedSheet) (remarks : List Diagnostic) :
    RebasedSheet :=
  { result with diagnostics := remarks ++ result.diagnostics }

namespace Rebaser

variable {rebaser : Rebaser} {sheet : StyleSheet} {before between after : Workspace}

/-! ## Runs in three parts -/

/-- The part of a run behind the reading of the map, up to where the diagnostics are told.  The
remarks on the map are not among them. -/
def runWith (rebaser : Rebaser) (sheet : StyleSheet) (map : Option SourceMap) :
    Work RebasedSheet := do
  let text := rebaser.scannedText sheet
  let lineage : Lineage := ⟨map, sheet.sourceName⟩
  let rebased ← (Token.scan text).mapM (rebaser.rebaseToken sheet lineage)
  let edits := RebasedToken.edits (Token.scan text) rebased
  let output := Edit.splice text edits
  Work.lift (checkCount sheet edits output)
  let outgoing ← Work.lift (rebaser.outgoingMap text edits lineage)
  return {
    text := output
    map := outgoing
    assets := (rebased.filterMap (·.asset)).eraseDups
    diagnostics := rebased.flatMap (·.diagnostics) }

def tell (rebaser : Rebaser) (sheet : StyleSheet) (diagnostics : List Diagnostic) :
    Work Unit := do
  unless rebaser.options.silent do
    for diagnostic in diagnostics do
      Work.log .warning (sheet.path ++ ": ".text ++ diagnostic.toText)

theorem run_eq (rebaser : Rebaser) (sheet : StyleSheet) :
    rebaser.run sheet = do
      let (map, remarks) ← Work.lift (readMap sheet)
      let result ← rebaser.runWith sheet map
      rebaser.tell sheet (remarks ++ result.diagnostics)
      return result.withRemarks remarks := by
  unfold run runWith tell
  cases rebaser.options.silent with
  | true => simp only [if_true, bind_assoc, pure_bind]; rfl
  | false =>
      simp only [Bool.false_eq_true, if_false, bind_assoc, pure_bind]
      rfl

def warnings (rebaser : Rebaser) (sheet : StyleSheet) (diagnostics : List Diagnostic) :
    List LogEntry :=
  if rebaser.options.silent then []
  else diagnostics.map fun diagnostic =>
    ⟨.warning, sheet.path ++ ": ".text ++ diagnostic.toText⟩

theorem runs_forIn_log (level : LogLevel) (message : Diagnostic → Text)
    (diagnostics : List Diagnostic) (before : Workspace) :
    Runs (ForIn.forIn diagnostics PUnit.unit fun diagnostic _ => do
        Work.log level (message diagnostic)
        return ForInStep.yield PUnit.unit) before (.ok ⟨⟩)
      { before with
        log := before.log ++ diagnostics.map fun diagnostic => ⟨level, message diagnostic⟩ } := by
  induction diagnostics generalizing before with
  | nil =>
      rw [List.map_nil, List.append_nil]
      exact Runs.of_pure _ before
  | cons diagnostic rest ih =>
      rw [List.forIn_cons, bind_assoc]
      apply (Runs.of_modify _ before).bind
      rw [pure_bind]
      have hrest := ih { before with log := before.log ++ [⟨level, message diagnostic⟩] }
      rwa [List.append_assoc] at hrest

theorem runs_tell (diagnostics : List Diagnostic) (before : Workspace) :
    Runs (rebaser.tell sheet diagnostics) before (.ok ⟨⟩)
      { before with log := before.log ++ rebaser.warnings sheet diagnostics } := by
  unfold tell warnings
  by_cases hsilent : rebaser.options.silent = true
  · rw [if_pos hsilent, if_pos hsilent, List.append_nil]
    exact Runs.of_pure _ before
  · rw [if_neg hsilent, if_neg hsilent]
    exact (runs_forIn_log _ _ diagnostics before).bind (Runs.of_pure _ _)

/-- The diagnostics of a run; one that fails has none. -/
def diagnosticsOf : Except Failure RebasedSheet → List Diagnostic
  | .ok result => result.diagnostics
  | .error _ => []

theorem runs_run
    {map : Option SourceMap} {remarks : List Diagnostic} {result : Except Failure RebasedSheet}
    (hread : readMap sheet = .ok (map, remarks))
    (h : Runs (rebaser.runWith sheet map) before result between) :
    Runs (rebaser.run sheet) before (result.map (·.withRemarks remarks))
      { between with
        log := between.log ++ rebaser.warnings sheet
          (diagnosticsOf (result.map (·.withRemarks remarks))) } := by
  rw [run_eq, hread]
  apply (Runs.of_lift _ before).bind
  cases result with
  | ok result =>
      apply h.bind
      exact (runs_tell _ between).bind (Runs.of_pure _ _)
  | error error =>
      have hsame : between.log ++ rebaser.warnings sheet [] = between.log := by
        simp [warnings]
      rw [Except.map, diagnosticsOf, hsame]
      exact h.bind_error

/-! ## What is said of tokens -/

theorem kind_of_rebaseResolved
    {origin : Origin} {token : Token} {resolution : Resolution} {rebased : RebasedToken}
    (h : Runs (rebaser.rebaseResolved origin token resolution) before (.ok rebased) after) :
    ∀ diagnostic ∈ rebased.diagnostics, diagnostic.kind ≠ .malformedSourceMap := by
  rw [rebaseResolved_eq] at h
  obtain ⟨spelled, between, -, h⟩ := exists_of_bind h
  obtain ⟨hsettled, -⟩ := Prod.mk.inj h
  obtain ⟨ambiguous, missing, hkinds, -⟩ := kinds_of_settled hsettled
  intro diagnostic hdiagnostic hkind
  have hmem := List.mem_map_of_mem (f := (·.kind)) hdiagnostic
  rw [hkinds, hkind] at hmem
  revert hmem
  cases ambiguous <;> cases missing <;> decide

theorem kind_of_rebaseToken
    {lineage : Lineage} {token : Token} {rebased : RebasedToken}
    (h : Runs (rebaser.rebaseToken sheet lineage token) before (.ok rebased) after) :
    ∀ diagnostic ∈ rebased.diagnostics, diagnostic.kind ≠ .malformedSourceMap := by
  by_cases hattempt : rebaser.options.attemptResolve = true
  · obtain ⟨origin, directory, resolution, between, outcome, -, -, -, houtcome, rfl⟩ :=
      exists_of_rebaseToken hattempt h
    exact kind_unmapped_append (kind_of_rebaseResolved houtcome)
  · unfold rebaseToken at h
    obtain ⟨origin, -, h⟩ := exists_of_lift_bind h
    rw [if_pos (by simpa using hattempt)] at h
    obtain ⟨rfl, -⟩ := eq_of_pure h
    intro diagnostic hdiagnostic
    rw [kind_unmappedDiagnostics hdiagnostic]
    simp

theorem kind_of_mapM
    {lineage : Lineage} {tokens : List Token} {rebased : List RebasedToken}
    (h : Runs (tokens.mapM (rebaser.rebaseToken sheet lineage)) before (.ok rebased) after) :
    ∀ diagnostic ∈ rebased.flatMap (·.diagnostics), diagnostic.kind ≠ .malformedSourceMap := by
  induction tokens generalizing before rebased with
  | nil =>
      obtain ⟨rfl, -⟩ := eq_of_pure h
      simp
  | cons token rest ih =>
      obtain ⟨first, between, others, hfirst, hothers, rfl⟩ := exists_of_mapM_cons h
      rw [List.flatMap_cons]
      intro diagnostic hdiagnostic
      rcases List.mem_append.mp hdiagnostic with hdiagnostic | hdiagnostic
      · exact kind_of_rebaseToken hfirst diagnostic hdiagnostic
      · exact ih hothers diagnostic hdiagnostic

theorem kind_of_runWith
    {map : Option SourceMap} {result : RebasedSheet}
    (h : Runs (rebaser.runWith sheet map) before (.ok result) after) :
    ∀ diagnostic ∈ result.diagnostics, diagnostic.kind ≠ .malformedSourceMap := by
  unfold runWith at h
  obtain ⟨rebased, between, hrebased, h⟩ := exists_of_bind h
  obtain ⟨_, -, h⟩ := exists_of_lift_bind h
  obtain ⟨outgoing, -, h⟩ := exists_of_lift_bind h
  obtain ⟨rfl, -⟩ := eq_of_pure h
  exact kind_of_mapM hrebased

/-! ## Malformed maps -/

def malformedRemark (error : Malformed) : Diagnostic where
  kind := .malformedSourceMap
  message := "Ignoring incoming source map: ".text ++ error.message

theorem readMap_of_malformed
    {given : SourceMap.Given} {error : Malformed} (hmap : sheet.map = some given)
    (hload : SourceMap.load given = .error (.malformed error)) :
    readMap sheet = .ok (none, [malformedRemark error]) := by
  simp only [readMap, hmap, hload, malformedRemark]

/-- A style sheet with a malformed map is rebased as without a map, on any workspace: the run
fails alike or returns the same text, assets and map, and does the same to the workspace.  Only
its diagnostics, and the log where they are told, start with one remark more.  The remark has no
place, and nothing else is remarked on the map. -/
theorem run_of_malformed
    {given : SourceMap.Given} {error : Malformed} (hmap : sheet.map = some given)
    (hload : SourceMap.load given = .error (.malformed error)) (before : Workspace) :
    ∃ (result : Except Failure RebasedSheet) (between : Workspace),
      Runs (rebaser.run { sheet with map := none }) before result
        { between with
          log := between.log ++ rebaser.warnings sheet (diagnosticsOf result) } ∧
      Runs (rebaser.run sheet) before
        (result.map (·.withRemarks [malformedRemark error]))
        { between with
          log := between.log ++ rebaser.warnings sheet
            (diagnosticsOf (result.map (·.withRemarks [malformedRemark error]))) } ∧
      (malformedRemark error).kind = .malformedSourceMap ∧
      (malformedRemark error).location = [] ∧
      ∀ diagnostic ∈ diagnosticsOf result, diagnostic.kind ≠ .malformedSourceMap := by
  have hread : readMap { sheet with map := none } = .ok (none, []) := rfl
  obtain ⟨result, between, hruns⟩ : ∃ result between,
      Runs (rebaser.runWith sheet none) before result between := ⟨_, _, rfl⟩
  have hwithout : Runs (rebaser.run { sheet with map := none }) before _ _ :=
    runs_run hread hruns
  have hsame : result.map (·.withRemarks []) = result := by
    cases result <;> rfl
  rw [hsame] at hwithout
  refine ⟨result, between, hwithout, runs_run (readMap_of_malformed hmap hload) hruns, rfl, rfl, ?_⟩
  cases result with
  | ok result => exact kind_of_runWith hruns
  | error error => simp [diagnosticsOf]

/-- A style sheet that names an image and comes with a text that is no map. -/
theorem run_of_malformed_of_image :
    ∃ (rebased : RebasedSheet) (after after' : Workspace),
      SourceMap.load (.text "\x7b".text) = .error (.malformed .notJson) ∧
      Runs (plain.run imageSheet) { files := imageFiles } (.ok rebased) after ∧
      Runs (plain.run { imageSheet with map := some (.text "\x7b".text) }) { files := imageFiles }
        (.ok (rebased.withRemarks [malformedRemark .notJson])) after' := by
  have hload : SourceMap.load (.text "\x7b".text) = .error (.malformed .notJson) := by cbv
  obtain ⟨rebased, hrebased⟩ := exists_runs_of_isOk (plain.run imageSheet)
    { files := imageFiles } (by decide +kernel)
  obtain ⟨result, between, hwithout, hwith, -⟩ :=
    @run_of_malformed plain { imageSheet with map := some (.text "\x7b".text) } _ _ rfl hload
      { files := imageFiles }
  obtain ⟨rfl, -⟩ := Prod.mk.inj (hwithout.symm.trans hrebased)
  exact ⟨rebased, _, _, hload, hwithout, hwith⟩

end Rebaser

end UrlRebase
