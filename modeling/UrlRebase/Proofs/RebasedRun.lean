import UrlRebase.Proofs.AnchoredMap
import UrlRebase.Proofs.RebasedPayload
import UrlRebase.Proofs.SoundWorkspace
import UrlRebase.Rebase.Rebaser

/-!
# Runs of a rebaser

A run changes payloads only into well-formed ones, so every reference is found again in the
text that comes out, and the check that counts them never fails.

What goes wrong with a reference should become a diagnostic.  A run fails none the less if
it meets an obstacle: a map that cannot be read for another cause than being malformed, a
source whose directory cannot be told, or a reference that leads to the root directory only
once it is decoded, where no root directory is known.
-/

namespace UrlRebase

open Work

/-- Whether the directory of a source of a map cannot be told: the source is a URL that
cannot be read, or it is relative to a root that is no text. -/
def Adrift (root : Json) (source : Text) : Prop :=
  (∃ error, sourcePath source = .error error) ∨
    ∃ path, sourcePath source = .ok path ∧ root.truthy = true ∧
      Path.isAbsolute path = false ∧ ∀ text, root ≠ .string text

theorem directoryOfSource_of_adrift
    {root : Json} {source : Text} (hadrift : Adrift root source) (current directory : Text) :
    ∃ error, directoryOfSource current source directory root = .error error ∧
      ∀ message, error ≠ .invariant message := by
  unfold directoryOfSource
  rcases hadrift with ⟨error, herror⟩ | ⟨path, hpath, htruthy, hrelative, hkind⟩
  · rw [herror]
    exact ⟨.url error, rfl, by simp⟩
  · refine ⟨.wrongKind, ?_, by simp⟩
    rw [hpath]
    cases root with
    | string text => exact absurd rfl (hkind text)
    | _ => simp [underRoot, htruthy, hrelative, Except.mapError, bind, Except.bind]

theorem directoryOfSource_of_not_adrift
    {root : Json} {source : Text} (hadrift : ¬Adrift root source) (current directory : Text) :
    ∃ result, directoryOfSource current source directory root = .ok result := by
  unfold directoryOfSource
  cases hpath : sourcePath source with
  | error error => exact absurd (.inl ⟨error, hpath⟩) hadrift
  | ok path =>
      obtain ⟨under, hunder⟩ : ∃ under, underRoot root path = .ok under := by
        unfold underRoot
        split
        · rename_i hroot
          split
          · exact ⟨_, rfl⟩
          · rename_i hkind
            rw [Bool.and_eq_true, Bool.not_eq_true'] at hroot
            exact absurd (.inr ⟨path, hpath, hroot.1, hroot.2, hkind⟩) hadrift
        · exact ⟨_, rfl⟩
      simp [hunder, Except.mapError, bind, Except.bind, pure, Except.pure]

namespace Rebaser

/-- Whether naming a file by its content fails only if the file cannot be read, and never
gives an empty name. -/
def NamesFiles (rebaser : Rebaser) : Prop :=
  ∀ path, Yields (rebaser.nameFile path) (· ≠ []) fun error => ∃ cause, error = .file cause

theorem namesFiles_digestName (options : Options) (searchPath : SearchPath) :
    NamesFiles { options, searchPath, nameFile := Work.digestName } :=
  yields_digestName

/-- What ends the rebasing of a reference. -/
inductive TokenObstacle (rebaser : Rebaser) (lineage : Lineage) (token : Token) : Prop
  /-- The directory of the source that the reference comes from cannot be told. -/
  | directory (hattempt : rebaser.options.attemptResolve = true) {map : SourceMap}
      {origin : Origin} (hmap : lineage.map = some map)
      (horigin : lineage.origin ⟨token.place.line, token.place.column⟩ = .ok origin)
      (hmapped : origin.mapped = true) (hadrift : Adrift map.root origin.source)
  /-- The reference leads to a root directory that is not known. -/
  | root (hattempt : rebaser.options.attemptResolve = true)
      (hname : namesNoFile token.payload.path rebaser.searchPath.root = false)
      (hlacks : SearchPath.LacksRoot rebaser.searchPath.root token.payload.path)

/-- What ends a run on a style sheet. -/
inductive Obstacle (rebaser : Rebaser) (sheet : StyleSheet) : Prop
  /-- The map of the style sheet cannot be read, and not for being malformed. -/
  | map {given : SourceMap.Given} (hgiven : sheet.map = some given)
      (hunreadable : SourceMap.Unreadable given)
  /-- A reference cannot be rebased. -/
  | token {map : Option SourceMap} {remarks : List Diagnostic} {token : Token}
      (hread : readMap sheet = .ok (map, remarks))
      (htoken : token ∈ Token.scan (rebaser.scannedText sheet))
      (hobstacle : TokenObstacle rebaser ⟨map, sheet.sourceName⟩ token)

/-- Whether a run on a style sheet may end with a failure: it has not lost count of the
references, and it met an obstacle if the map was not given ready-made. -/
def MayFail (rebaser : Rebaser) (sheet : StyleSheet) (error : Failure) : Prop :=
  (∀ message, error ≠ .invariant message) ∧
    ((∀ ready, sheet.map ≠ some (.map ready)) → Obstacle rebaser sheet)

/-! ## References -/

/-- A token that was rebased, and nothing said of the map. -/
def IsRebased (token : Token) (rebased : RebasedToken) : Prop :=
  (⟨token, rebased.text⟩ : Edit).IsRebased ∧
    ∀ diagnostic ∈ rebased.diagnostics, diagnostic.kind ≠ .malformedSourceMap

theorem isRebased_withPath
    {token : Token} {path : Text} (hpath : path ≠ []) (keepQuery : Bool) :
    (⟨token, token.withPath keepQuery path⟩ : Edit).IsRebased :=
  .inr ⟨fun path => path, .absolute, keepQuery, path, [], [], hpath, hpath, rfl⟩

theorem kind_ambiguousDiagnostics
    {token : Token} {path : Text} {shadowed : List Text} {diagnostic : Diagnostic}
    (hdiagnostic : diagnostic ∈ ambiguousDiagnostics token path shadowed) :
    diagnostic.kind = .resolutionAmbiguous := by
  unfold ambiguousDiagnostics at hdiagnostic
  split at hdiagnostic
  · simp at hdiagnostic
  · rw [List.mem_singleton.mp hdiagnostic]
    rfl

theorem kind_unmappedDiagnostics
    {sheet : StyleSheet} {origin : Origin} {token : Token} {diagnostic : Diagnostic}
    (hdiagnostic : diagnostic ∈ unmappedDiagnostics sheet origin token) :
    diagnostic.kind = .unmappedPosition := by
  unfold unmappedDiagnostics at hdiagnostic
  split at hdiagnostic
  · simp at hdiagnostic
  · rw [List.mem_singleton.mp hdiagnostic]
    rfl

section Run

variable {rebaser : Rebaser}

theorem yields_rebase
    (hnames : rebaser.NamesFiles) (token : Token) {path : Text} (hpath : path ≠ [])
    (candidates shadowed : List Text) :
    Yields
      (token.rebase rebaser.nameFile rebaser.options.mode rebaser.options.keepQuery
        (.found path candidates shadowed))
      (fun text => (⟨token, text⟩ : Edit).IsRebased)
      (fun error => ∃ cause, error = .file cause) := by
  unfold Token.rebase
  cases rebaser.options.mode with
  | absolute => exact Yields.of_pure (isRebased_withPath hpath _)
  | contentDerived =>
      apply (hnames path).bind
      intro name hname
      exact Yields.of_pure (isRebased_withPath hname _)
  | keep => exact Yields.of_pure (.inl rfl)

theorem yields_rebaseResolved
    (hnames : rebaser.NamesFiles) (origin : Origin) (token : Token) {resolution : Resolution}
    (hpath : resolution.path? ≠ some []) :
    Yields (rebaser.rebaseResolved origin token resolution) (IsRebased token)
      (fun _ => False) := by
  unfold rebaseResolved
  cases resolution with
  | ignored => exact Yields.of_pure ⟨.inl rfl, by simp⟩
  | notFound candidates =>
      refine Yields.of_pure ⟨.inl rfl, ?_⟩
      intro diagnostic hdiagnostic
      rw [List.mem_singleton.mp hdiagnostic]
      simp [notFoundDiagnostic, Diagnostic.at]
  | found path candidates shadowed =>
      have hne : path ≠ [] := by
        rintro rfl
        exact hpath rfl
      have hambiguous : ∀ diagnostic ∈ ambiguousDiagnostics token path shadowed,
          diagnostic.kind ≠ .malformedSourceMap := by
        intro diagnostic hdiagnostic
        rw [kind_ambiguousDiagnostics hdiagnostic]
        simp
      apply (yields_rebase hnames token hne candidates shadowed).attempt.bind
      intro outcome houtcome
      cases outcome with
      | ok text => exact Yields.of_pure ⟨houtcome, hambiguous⟩
      | error error =>
          obtain ⟨cause, rfl⟩ := houtcome
          refine Yields.of_pure ⟨.inl rfl, ?_⟩
          intro diagnostic hdiagnostic
          rcases List.mem_append.mp hdiagnostic with hdiagnostic | hdiagnostic
          · exact hambiguous diagnostic hdiagnostic
          · rw [List.mem_singleton.mp hdiagnostic]
            simp [unreadableDiagnostic, Diagnostic.at]

/-- A directory that a reference is relative to is told unless its source is adrift. -/
theorem referenceDirectory_cases
    {lineage : Lineage} {token : Token} {origin : Origin}
    (hattempt : rebaser.options.attemptResolve = true) (current : Text) (sheet : StyleSheet)
    (horigin : lineage.origin ⟨token.place.line, token.place.column⟩ = .ok origin) :
    (∃ directory, referenceDirectory current sheet lineage origin = .ok directory ∧
      ∀ map, lineage.map = some map → origin.mapped = true →
        ¬Adrift map.root origin.source) ∨
      ∃ error, referenceDirectory current sheet lineage origin = .error error ∧
        (∀ message, error ≠ .invariant message) ∧ TokenObstacle rebaser lineage token := by
  unfold referenceDirectory
  cases hmap : lineage.map with
  | none => exact .inl ⟨_, rfl, by simp⟩
  | some map =>
      simp only
      split
      · rename_i hmapped
        by_cases hadrift : Adrift map.root origin.source
        · obtain ⟨error, herror, hkind⟩ :=
            directoryOfSource_of_adrift hadrift current (sheet.directory current)
          exact .inr ⟨error, herror, hkind, .directory hattempt hmap horigin hmapped hadrift⟩
        · obtain ⟨directory, hdirectory⟩ :=
            directoryOfSource_of_not_adrift hadrift current (sheet.directory current)
          refine .inl ⟨directory, hdirectory, ?_⟩
          rintro other hother -
          rwa [← Option.some.inj hother]
      · rename_i hmapped
        exact .inl ⟨_, rfl, fun _ _ hmapped' => absurd hmapped' hmapped⟩

theorem yields_origin (lineage : Lineage) (position : Position) :
    Yields (lift ((lineage.origin position).mapError Failure.mapUse))
      (fun origin => lineage.origin position = .ok origin)
      (fun error => (∀ message, error ≠ .invariant message) ∧ ¬lineage.Sound) := by
  apply Yields.of_lift
  · intro origin horigin
    exact Except.mapError_eq_ok.mp horigin
  · intro error herror
    obtain ⟨cause, hcause, rfl⟩ := Except.mapError_eq_error.mp herror
    refine ⟨by simp, ?_⟩
    intro hlineage
    rcases hlineage.origin_cases position with horigin | ⟨_, _, _, _, -, -, -, -, -, horigin⟩
    · simp [horigin] at hcause
    · simp [horigin] at hcause

theorem kind_unmapped_append
    {sheet : StyleSheet} {origin : Origin} {token : Token} {remarks : List Diagnostic}
    (hremarks : ∀ diagnostic ∈ remarks, diagnostic.kind ≠ .malformedSourceMap) :
    ∀ diagnostic ∈ unmappedDiagnostics sheet origin token ++ remarks,
      diagnostic.kind ≠ .malformedSourceMap := by
  intro diagnostic hdiagnostic
  rcases List.mem_append.mp hdiagnostic with hdiagnostic | hdiagnostic
  · rw [kind_unmappedDiagnostics hdiagnostic]
    simp
  · exact hremarks diagnostic hdiagnostic

/-- A reference is rebased unless it meets an obstacle. -/
theorem yields_rebaseToken
    (hnames : rebaser.NamesFiles) (sheet : StyleSheet) (lineage : Lineage) (token : Token) :
    Yields (rebaser.rebaseToken sheet lineage token)
      (fun rebased => IsRebased token rebased ∧ ¬TokenObstacle rebaser lineage token)
      (fun error => (∀ message, error ≠ .invariant message) ∧
        (lineage.Sound → TokenObstacle rebaser lineage token)) := by
  unfold rebaseToken
  simp only
  have htraced := (yields_origin lineage ⟨token.place.line, token.place.column⟩).mono
    (fun _ => id) fun error herror => And.imp_right
      (fun hunsound hsound => (absurd hsound hunsound : TokenObstacle rebaser lineage token))
      herror
  apply htraced.bind
  intro origin horigin
  by_cases hattempt : rebaser.options.attemptResolve = true
  · rw [if_neg (by simp [hattempt])]
    apply yields_current.bind
    intro current _
    rcases referenceDirectory_cases hattempt current sheet horigin with
      ⟨directory, hdirectory, hadrift⟩ | ⟨error, herror, hkind, hobstacle⟩
    · rw [hdirectory, lift_ok, pure_bind]
      -- Resolving fails only for want of a root directory, which is an obstacle.
      have hresolve := (rebaser.searchPath.yields_resolve directory token.payload).mono
        (fun _ => id) fun error herror =>
          show (∀ message, error ≠ .invariant message) ∧ (lineage.Sound →
            TokenObstacle rebaser lineage token) from
          ⟨by simp [herror.1], fun _ => .root hattempt herror.2.1 herror.2.2⟩
      apply hresolve.bind
      rintro resolution ⟨hpath, hrooted⟩
      apply ((yields_rebaseResolved hnames origin token hpath).mono (fun _ => id)
        fun _ hfalse => hfalse.elim).bind
      rintro rebased ⟨hrebased, hremarks⟩
      refine Yields.of_pure ⟨⟨hrebased, kind_unmapped_append hremarks⟩, ?_⟩
      intro hobstacle
      cases hobstacle with
      | directory _ hmap horigin' hmapped hadrift' =>
          obtain rfl := Except.ok.inj (horigin.symm.trans horigin')
          exact hadrift _ hmap hmapped hadrift'
      | root _ hname hlacks => exact hrooted ⟨hname, hlacks⟩
    · rw [herror]
      exact Yields.of_lift_error_bind ⟨hkind, fun _ => hobstacle⟩
  · rw [if_pos (by simp [hattempt])]
    have hremarks : ∀ diagnostic ∈ unmappedDiagnostics sheet origin token,
        diagnostic.kind ≠ .malformedSourceMap := by
      intro diagnostic hdiagnostic
      rw [kind_unmappedDiagnostics hdiagnostic]
      simp
    refine Yields.of_pure ⟨⟨.inl rfl, hremarks⟩, ?_⟩
    intro hobstacle
    cases hobstacle with
    | directory hattempt' => exact hattempt hattempt'
    | root hattempt' => exact hattempt hattempt'

/-! ## Style sheets -/

/-- The map of a style sheet is read or ignored with one remark, unless it is an obstacle. -/
theorem yields_readMap (rebaser : Rebaser) (sheet : StyleSheet) :
    Yields (lift (readMap sheet))
      (fun read => readMap sheet = .ok read ∧ read.2.length ≤ 1 ∧
        ((∀ ready, sheet.map ≠ some (.map ready)) →
          Lineage.Sound ⟨read.1, sheet.sourceName⟩) ∧
        ∀ given, sheet.map = some given → ¬SourceMap.Unreadable given)
      (MayFail rebaser sheet) := by
  unfold readMap
  cases hgiven : sheet.map with
  | none => exact Yields.of_pure ⟨rfl, by simp, by simp [Lineage.Sound], by simp⟩
  | some given =>
      have hunexplained := SourceMap.unexplained_load_iff given
      simp only
      by_cases hunreadable : SourceMap.Unreadable given
      · obtain ⟨error, hload, hother⟩ := hunexplained.mpr hunreadable
        rw [hload]
        have hfails : MayFail rebaser sheet (.ofLoad error) :=
          ⟨by cases error <;> simp [Failure.ofLoad], fun _ => .map hgiven hunreadable⟩
        cases error with
        | malformed cause => exact absurd rfl (hother cause)
        | _ => exact fun _ hworkspace => ⟨hworkspace, hfails⟩
      · have hreadable : ∀ other, some given = some other → ¬SourceMap.Unreadable other := by
          intro other hother
          rwa [← Option.some.inj hother]
        cases hload : SourceMap.load given with
        | ok map =>
            refine Yields.of_pure ⟨rfl, by simp, ?_, hreadable⟩
            intro hready map' hmap'
            obtain rfl := Option.some.inj hmap'
            exact ⟨given, fun ready heq => hready ready (by rw [heq]), hload⟩
        | error error =>
            cases error with
            | malformed cause =>
                exact Yields.of_pure ⟨rfl, by simp, by simp [Lineage.Sound], hreadable⟩
            | _ => exact absurd (hunexplained.mp ⟨_, hload, by simp⟩) hunreadable

/-- The references of a text are rebased one by one. -/
theorem yields_rebaseTokens
    (hnames : rebaser.NamesFiles) {sheet : StyleSheet} {map : Option SourceMap}
    {remarks : List Diagnostic} (hread : readMap sheet = .ok (map, remarks))
    (hsound : (∀ ready, sheet.map ≠ some (.map ready)) →
      Lineage.Sound ⟨map, sheet.sourceName⟩) :
    Yields
      ((Token.scan (rebaser.scannedText sheet)).mapM
        (rebaser.rebaseToken sheet ⟨map, sheet.sourceName⟩))
      (List.Forall₂ (fun token rebased => IsRebased token rebased ∧
        ¬TokenObstacle rebaser ⟨map, sheet.sourceName⟩ token)
        (Token.scan (rebaser.scannedText sheet)))
      (MayFail rebaser sheet) := by
  apply Yields.mapM
  intro token htoken
  apply (yields_rebaseToken hnames sheet ⟨map, sheet.sourceName⟩ token).mono fun _ => id
  rintro error ⟨hkind, hobstacle⟩
  exact ⟨hkind, fun hready => .token hread htoken (hobstacle (hsound hready))⟩

theorem yields_outgoingMap
    (rebaser : Rebaser) (text : Text) (edits : List Edit) (lineage : Lineage) :
    Yields (lift (rebaser.outgoingMap text edits lineage)) (fun _ => True)
      (fun error => (∀ message, error ≠ .invariant message) ∧ ¬lineage.Sound) := by
  have hmade (edits : List Edit) :
      Yields (lift (((Edit.editedMap text edits lineage rebaser.options.granularity).map
        some).mapError Failure.mapUse)) (fun _ => True)
        (fun error => (∀ message, error ≠ .invariant message) ∧ ¬lineage.Sound) := by
    apply Yields.of_lift fun _ _ => trivial
    intro error herror
    obtain ⟨cause, hcause, rfl⟩ := Except.mapError_eq_error.mp herror
    refine ⟨by simp, ?_⟩
    intro hlineage
    obtain ⟨-, map, hmap, -⟩ :=
      Edit.editedMap_spec hlineage text edits rebaser.options.granularity
    simp [hmap, Except.map] at hcause
  unfold outgoingMap
  split
  · exact Yields.of_pure trivial
  · split
    · exact Yields.of_pure trivial
    · exact hmade _

theorem edits_of_rebased
    {tokens : List Token} {rebased : List RebasedToken}
    (h : List.Forall₂ IsRebased tokens rebased) :
    (tokens.zipWith (fun token rebased => (⟨token, rebased.text⟩ : Edit)) rebased).map
        Edit.token = tokens ∧
      ∀ edit ∈ tokens.zipWith (fun token rebased => (⟨token, rebased.text⟩ : Edit)) rebased,
        edit.IsRebased := by
  induction h with
  | nil => simp
  | @cons token outcome tokens rebased houtcome hrest ih =>
      obtain ⟨htokens, hedits⟩ := ih
      refine ⟨by simp [htokens], ?_⟩
      intro edit hedit
      rcases List.mem_cons.mp hedit with rfl | hedit
      · exact houtcome.1
      · exact hedits edit hedit

/-- The count of the references never fails where payloads were rebased. -/
theorem checkCount_of_rebased
    {text : Text} {edits : List Edit} (htokens : edits.map Edit.token = Token.scan text)
    (hedits : ∀ edit ∈ edits, edit.IsRebased) (sheet : StyleSheet) :
    checkCount sheet edits (Edit.splice text edits) = .ok () := by
  have hlength :=
    (Edit.landed_scan_splice htokens (Edit.fits_of_rebased htokens hedits)).length_eq
  unfold checkCount
  simp only
  rw [if_pos hlength.symm]

theorem not_obstacle_of_rebased
    {sheet : StyleSheet} {map : Option SourceMap} {remarks : List Diagnostic}
    {rebased : List RebasedToken} (hread : readMap sheet = .ok (map, remarks))
    (hreadable : ∀ given, sheet.map = some given → ¬SourceMap.Unreadable given)
    (hrebased : List.Forall₂ (fun token rebased => IsRebased token rebased ∧
      ¬TokenObstacle rebaser ⟨map, sheet.sourceName⟩ token)
      (Token.scan (rebaser.scannedText sheet)) rebased) :
    ¬Obstacle rebaser sheet := by
  intro hobstacle
  cases hobstacle with
  | map hgiven hunreadable => exact hreadable _ hgiven hunreadable
  | token hread' htoken hobstacle =>
      obtain ⟨rfl, -⟩ := Prod.mk.inj (Except.ok.inj (hread.symm.trans hread'))
      obtain ⟨_, -, hnone⟩ := Forall₂.exists_of_mem_left hrebased htoken
      exact hnone.2 hobstacle

theorem countP_malformed_le_one
    {tokens : List Token} {rebased : List RebasedToken} {remarks : List Diagnostic}
    (h : List.Forall₂ IsRebased tokens rebased) (hremarks : remarks.length ≤ 1) :
    (remarks ++ rebased.flatMap (·.diagnostics)).countP
      (·.kind = .malformedSourceMap) ≤ 1 := by
  have hnone : (rebased.flatMap (·.diagnostics)).countP
      (·.kind = .malformedSourceMap) = 0 := by
    rw [List.countP_eq_zero]
    intro diagnostic hdiagnostic
    obtain ⟨outcome, houtcome, hmem⟩ := List.mem_flatMap.mp hdiagnostic
    obtain ⟨token, -, -, hkinds⟩ := Forall₂.exists_of_mem_right h houtcome
    simpa using hkinds diagnostic hmem
  rw [List.countP_append, hnone]
  exact List.countP_le_length.trans hremarks

/-- A run fails only at an obstacle, unless it was given a map ready-made, and never for
losing count of the references; if it does not fail, it met no obstacle, and it remarked at
most once that the map is malformed. -/
theorem yields_run (hnames : rebaser.NamesFiles) (sheet : StyleSheet) :
    Yields (rebaser.run sheet)
      (fun rebased =>
        rebased.diagnostics.countP (·.kind = .malformedSourceMap) ≤ 1 ∧
          ¬Obstacle rebaser sheet)
      (MayFail rebaser sheet) := by
  unfold run
  simp only
  apply (yields_readMap rebaser sheet).bind
  rintro ⟨map, remarks⟩ ⟨hread, hremarks, hsound, hreadable⟩
  apply (yields_rebaseTokens hnames hread hsound).bind
  intro rebased hrebased
  have hkept := hrebased.imp fun _ _ h => h.1
  obtain ⟨htokens, hedits⟩ := edits_of_rebased hkept
  rw [checkCount_of_rebased htokens hedits, lift_ok, pure_bind]
  have hremark := countP_malformed_le_one hkept hremarks
  have hobstacle := not_obstacle_of_rebased hread hreadable hrebased
  have houtgoing := (yields_outgoingMap rebaser (rebaser.scannedText sheet)
    ((Token.scan (rebaser.scannedText sheet)).zipWith
      (fun token rebased => (⟨token, rebased.text⟩ : Edit)) rebased)
    ⟨map, sheet.sourceName⟩).mono (fun _ => id) fun error herror =>
      (⟨herror.1, fun hready => absurd (hsound hready) herror.2⟩ : MayFail rebaser sheet error)
  apply houtgoing.bind
  intro outgoing _
  split
  · exact Yields.of_pure ⟨hremark, hobstacle⟩
  · apply (Yields.forIn fun _ _ => yields_log _ _).bind
    intro _ _
    exact Yields.of_pure ⟨hremark, hobstacle⟩

end Run

/-- Rebased references are the references of the edited text, one by one: each has its
quotation marks, its line and its new payload, and stands where its column is shifted to.
So no run on a sound workspace loses count of them, and it leaves the workspace sound. -/
theorem landed_of_isRebased :
    (∀ (text : Text) (edits : List Edit), edits.map Edit.token = Token.scan text →
      (∀ edit ∈ edits, edit.IsRebased) →
      (Token.scan (Edit.splice text edits)).length = (Token.scan text).length ∧
        List.Forall₂
          (fun edit token => token.quote = edit.token.quote ∧
            token.place.line = edit.token.place.line ∧ token.raw = edit.text ∧
            (token.place.column : Int) =
              Edit.shift edits edit.token.place.line edit.token.place.column)
          edits (Token.scan (Edit.splice text edits))) ∧
      ∀ (rebaser : Rebaser) (sheet : StyleSheet) (workspace : Workspace),
        rebaser.NamesFiles → workspace.Sound →
          ((rebaser.run sheet).run.run workspace).2.Sound ∧
            ∀ message,
              ((rebaser.run sheet).run.run workspace).1 ≠ .error (.invariant message) := by
  constructor
  · intro text edits htokens hedits
    have hlanded := Edit.landed_scan_splice htokens (Edit.fits_of_rebased htokens hedits)
    constructor
    · rw [← hlanded.length_eq, ← htokens, List.length_map]
    · refine hlanded.imp ?_
      intro edit token h
      refine ⟨?_, h.line, ?_, h.column⟩
      · rw [Token.quote, h.reading]
        rfl
      · rw [Token.raw, h.reading]
  · intro rebaser sheet workspace hnames hworkspace
    obtain ⟨hsound, houtcome⟩ := yields_run hnames sheet workspace hworkspace
    refine ⟨hsound, ?_⟩
    intro message herror
    rw [herror] at houtcome
    exact houtcome.1 message rfl

theorem landed_of_escaped_space :
    (Token.scan (Edit.splice "url(a.png)".text ((Token.scan "url(a.png)".text).map
        fun token => ⟨token, token.withPath true "b c".text⟩))).length =
      (Token.scan "url(a.png)".text).length ∧
    ∀ message,
      ((run ⟨{}, ⟨[], none, false⟩, Work.digestName⟩
        { text := "url(a.png)".text, path := "a.css".text }).run.run
          { files := FileSystem.empty "/".text }).1 ≠ .error (.invariant message) := by
  constructor
  · refine (landed_of_isRebased.1 "url(a.png)".text _ ?_ ?_).1
    · rw [List.map_map]
      exact List.map_id _
    · intro edit hedit
      obtain ⟨token, -, rfl⟩ := List.mem_map.mp hedit
      exact isRebased_withPath (by simp [String.text]) true
  · exact (landed_of_isRebased.2 _ _ _ (namesFiles_digestName _ _)
      (Workspace.sound_of_files _)).2

end Rebaser

end UrlRebase
