import UrlRebase.Proofs.ReturnedRuns
import UrlRebase.Proofs.ReusableMaps

/-!
# Accounts of runs

In a run that returns each reference is accounted for: by diagnostics of up to three kinds,
each made once and for a cause of its own, and by the file that it names, which is listed if
no diagnostic says that it is missing.

The outcome of a lookup is kept until the caches are cleared, so it tells of the files that
there were when it was looked up.  A workspace remembers only file systems that were seen
since then.
-/

namespace UrlRebase

open Work

/-! ## Lookups that are remembered -/

/-- Whether the files are seen, and the outcomes that are held are of lookups in files that
were seen. -/
structure Workspace.Remembers (seen : FileSystem → Prop) (workspace : Workspace) : Prop where
  files : seen workspace.files
  resolutions : ∀ key resolution, workspace.resolutions.find? key = some resolution →
    ∃ files, seen files ∧ key.outcome files = .ok resolution

section Remembered

variable {seen : FileSystem → Prop} {before after : Workspace}

theorem Workspace.remembers_of_files {files : FileSystem} (h : seen files) :
    Remembers seen { files } where
  files := h
  resolutions := by simp [Cache.empty, Cache.find?]

theorem Workspace.Remembers.congr
    (h : before.Remembers seen) (hfiles : after.files = before.files)
    (hresolutions : after.resolutions = before.resolutions) : after.Remembers seen :=
  ⟨hfiles ▸ h.files, hresolutions ▸ h.resolutions⟩

theorem remembers_insert
    (h : before.Remembers seen) {key : SearchPath.Key} {resolution : Resolution}
    (hkey : key.outcome before.files = .ok resolution) (hfiles : after.files = before.files)
    (hheld : after.resolutions = before.resolutions.insert key resolution) :
    after.Remembers seen where
  files := hfiles ▸ h.files
  resolutions := by
    intro other found hother
    rw [hheld] at hother
    by_cases heq : other = key
    · rw [heq, Cache.find?_insert_self] at hother
      obtain rfl := Option.some.inj hother
      exact ⟨before.files, h.files, heq ▸ hkey⟩
    · rw [Cache.find?_insert_of_ne _ _ heq] at hother
      exact h.resolutions other found hother

/-- What a payload is resolved to is where it leads in files that were seen. -/
theorem remembers_resolve
    {searchPath : SearchPath} {directory : Text} {payload : Payload} {resolution : Resolution}
    (h : before.Remembers seen)
    (hruns : Runs (searchPath.resolve directory payload) before (.ok resolution) after) :
    after.Remembers seen ∧
      ∃ files, seen files ∧ searchPath.answer files directory payload = .ok resolution := by
  unfold SearchPath.resolve at hruns
  unfold SearchPath.answer
  split at hruns
  · rename_i hname
    obtain ⟨rfl, rfl⟩ := eq_of_pure hruns
    exact ⟨h, before.files, h.files, if_pos hname⟩
  · rename_i hname
    have houtcome (files : FileSystem) := searchPath.outcome_key files directory payload.path
    generalize searchPath.key directory payload.path = key at hruns houtcome
    simp only [if_neg hname, ← houtcome]
    cases hheld : before.resolutions.find? key with
    | some held =>
        obtain ⟨hresult, rfl⟩ := Prod.mk.inj (hruns.symm.trans (runs_fetch_of_held hheld))
        obtain rfl := Except.ok.inj hresult
        exact ⟨h, h.resolutions key resolution hheld⟩
    | none =>
        cases hfound : key.outcome before.files with
        | error error =>
            have hlookup := SearchPath.runs_lookUp_of_error ((houtcome _).symm.trans hfound)
            cases (Prod.mk.inj (hruns.symm.trans (runs_fetch_of_failed hheld hlookup))).1
        | ok found =>
            obtain ⟨log, hlookup⟩ :=
              SearchPath.runs_lookUp_of_ok ((houtcome _).symm.trans hfound)
            obtain ⟨hresult, rfl⟩ :=
              Prod.mk.inj (hruns.symm.trans (runs_fetch_of_computed hheld hlookup))
            obtain rfl := Except.ok.inj hresult
            exact ⟨remembers_insert h hfound rfl rfl, before.files, h.files, hfound⟩

end Remembered

namespace Rebaser

/-- Whether naming a file leaves remembered what was seen. -/
def KeepsMemory (rebaser : Rebaser) (seen : FileSystem → Prop) : Prop :=
  ∀ (path : Text) {before after : Workspace} {result : Except Failure Text},
    before.Remembers seen → Runs (rebaser.nameFile path) before result after →
      after.Remembers seen

theorem keepsMemory_digestName
    (options : Options) (searchPath : SearchPath) (seen : FileSystem → Prop) :
    KeepsMemory { options, searchPath, nameFile := Work.digestName } seen := by
  intro path before after result h hruns
  replace hruns : Runs (Work.digestName path) before result after := hruns
  cases hheld : before.names.find? path with
  | some name =>
      have hsame : Runs (Work.digestName path) before (.ok name) before := by
        unfold Work.digestName
        exact runs_fetch_of_held hheld
      obtain ⟨-, rfl⟩ := Prod.mk.inj (hruns.symm.trans hsame)
      exact h
  | none =>
      cases hread : before.files.read path with
      | ok bytes =>
          obtain ⟨-, rfl⟩ := Prod.mk.inj (hruns.symm.trans (runs_digestName_of_ok hheld hread))
          exact h.congr rfl rfl
      | error error =>
          obtain ⟨-, rfl⟩ :=
            Prod.mk.inj (hruns.symm.trans (runs_digestName_of_error hheld hread))
          exact h.congr rfl rfl

/-! ## Accounts -/

/-- The course that the rebasing of a token takes: where the token comes from, the directory
it is relative to, the files it is looked up in and where it leads, and what comes of
spelling it anew. -/
structure Course where
  origin : Origin
  directory : Text
  files : FileSystem
  resolution : Resolution
  spelled : Except Failure Text

/-- How a token is accounted for that is rebased on a workspace. -/
structure Account (rebaser : Rebaser) (sheet : StyleSheet) (map : Option SourceMap)
    (seen : FileSystem → Prop) (before : Workspace) (token : Token) (rebased : RebasedToken)
    (after : Workspace) (course : Course) : Prop where
  origin : Lineage.origin ⟨map, sheet.sourceName⟩ ⟨token.place.line, token.place.column⟩ =
    .ok course.origin
  directory : referenceDirectory before.files.current sheet ⟨map, sheet.sourceName⟩
    course.origin = .ok course.directory
  seen : seen course.files
  answer : rebaser.searchPath.answer course.files course.directory token.payload =
    .ok course.resolution
  spelled : ∃ between,
    Runs (rebaser.searchPath.resolve course.directory token.payload) before
      (.ok course.resolution) between ∧
    Runs (token.rebase rebaser.nameFile rebaser.options.mode rebaser.options.keepQuery
      course.resolution) between course.spelled after
  /-- There are up to three diagnostics, each of its own kind, in this order. -/
  kinds : (rebased.diagnostics.map (·.kind)).Sublist
    [.unmappedPosition, .resolutionAmbiguous, .assetNotFound]
  places : ∀ diagnostic ∈ rebased.diagnostics,
    diagnostic.line = some (token.place.line : Int) ∧
      diagnostic.column = some (token.place.column : Int)
  unmapped : .unmappedPosition ∈ rebased.diagnostics.map (·.kind) ↔
    ∃ incoming, map = some incoming ∧ ∀ mapping,
      Lineage.nearest? incoming.mappings ⟨token.place.line, token.place.column⟩ =
        some mapping → mapping.source = none
  ambiguous : .resolutionAmbiguous ∈ rebased.diagnostics.map (·.kind) ↔
    1 < (course.resolution.candidates.filter course.files.isFile).length
  missing : .assetNotFound ∈ rebased.diagnostics.map (·.kind) ↔
    (∃ candidates, course.resolution = .notFound candidates) ∨
      ∃ error, course.spelled = .error (.file error)
  kept : course.resolution = .ignored ∨
    .assetNotFound ∈ rebased.diagnostics.map (·.kind) → rebased.text = token.raw
  asset : ∀ path, rebased.asset = some path ↔
    course.resolution.path? = some path ∧
      .assetNotFound ∉ rebased.diagnostics.map (·.kind)

/-- Whether tokens are rebased one after the other and each is accounted for. -/
inductive Accounted (rebaser : Rebaser) (sheet : StyleSheet) (map : Option SourceMap)
    (seen : FileSystem → Prop) :
    Workspace → List Token → List RebasedToken → Workspace → Prop
  | nil (workspace : Workspace) : Accounted rebaser sheet map seen workspace [] [] workspace
  | cons {before between after : Workspace} {token : Token} {rebased : RebasedToken}
      {course : Course} {tokens : List Token} {others : List RebasedToken}
      (haccount : Account rebaser sheet map seen before token rebased between course)
      (hrest : Accounted rebaser sheet map seen between tokens others after) :
      Accounted rebaser sheet map seen before (token :: tokens) (rebased :: others) after

section Account

variable {rebaser : Rebaser} {sheet : StyleSheet} {map : Option SourceMap}
  {seen : FileSystem → Prop} {before after : Workspace} {token : Token}

/-- An origin is not mapped exactly where a map is in use and leads nowhere. -/
theorem mapped_eq_false_iff
    {lineage : Lineage} {position : Position} {origin : Origin}
    (h : lineage.origin position = .ok origin) :
    origin.mapped = false ↔ ∃ incoming, lineage.map = some incoming ∧ ∀ mapping,
      Lineage.nearest? incoming.mappings position = some mapping → mapping.source = none := by
  unfold Lineage.origin at h
  cases hmap : lineage.map with
  | none =>
      rw [hmap] at h
      obtain rfl := Except.ok.inj h
      simp [Lineage.here]
  | some incoming =>
      simp only [hmap] at h
      cases hnearest : Lineage.nearest? incoming.mappings position with
      | none =>
          simp only [hnearest] at h
          obtain rfl := Except.ok.inj h
          simp [Lineage.here, hnearest]
      | some mapping =>
          simp only [hnearest] at h
          cases hsource : mapping.source with
          | none =>
              simp only [hsource] at h
              obtain rfl := Except.ok.inj h
              simp [Lineage.here, hnearest, hsource]
          | some index =>
              simp only [hsource] at h
              split at h
              · cases h
              · obtain rfl := Except.ok.inj h
                simp [hnearest, hsource]

theorem kinds_unmappedDiagnostics (sheet : StyleSheet) (origin : Origin) (token : Token) :
    (unmappedDiagnostics sheet origin token).map (·.kind) =
      if origin.mapped then [] else [.unmappedPosition] := by
  unfold unmappedDiagnostics
  split <;> rfl

theorem kinds_ambiguousDiagnostics (token : Token) (path : Text) (shadowed : List Text) :
    ∃ ambiguous : Bool, (ambiguousDiagnostics token path shadowed).map (·.kind) =
        (if ambiguous then [.resolutionAmbiguous] else []) ∧
      (ambiguous = true ↔ shadowed ≠ []) := by
  cases shadowed with
  | nil => exact ⟨false, by simp [ambiguousDiagnostics]⟩
  | cons other shadowed => exact ⟨true, by simp [ambiguousDiagnostics, Diagnostic.at]⟩

/-- A token that is settled was ignored, leads to no file, leads to a file and was spelt anew,
or leads to a file that cannot be read. -/
theorem settled_cases
    {origin : Origin} {resolution : Resolution} {spelled : Except Failure Text}
    {rebased : RebasedToken} (h : settled origin token resolution spelled = .ok rebased) :
    (resolution = .ignored ∧ rebased = { text := token.raw }) ∨
    (∃ candidates, resolution = .notFound candidates ∧
      rebased = { text := token.raw
                  diagnostics := [notFoundDiagnostic origin token candidates] }) ∨
    (∃ path candidates shadowed text, resolution = .found path candidates shadowed ∧
      spelled = .ok text ∧
      rebased = { text, diagnostics := ambiguousDiagnostics token path shadowed,
                  asset := some path }) ∨
    ∃ path candidates shadowed error, resolution = .found path candidates shadowed ∧
      spelled = .error (.file error) ∧
      rebased = { text := token.raw
                  diagnostics := ambiguousDiagnostics token path shadowed ++
                    [unreadableDiagnostic token path error] } := by
  unfold settled at h
  split at h
  · exact .inl ⟨rfl, (Except.ok.inj h).symm⟩
  · exact .inr (.inl ⟨_, rfl, (Except.ok.inj h).symm⟩)
  · exact .inr (.inr (.inl ⟨_, _, _, _, rfl, rfl, (Except.ok.inj h).symm⟩))
  · exact .inr (.inr (.inr ⟨_, _, _, _, rfl, rfl, (Except.ok.inj h).symm⟩))
  · cases h

/-- The kinds of the diagnostics on a token that is settled. -/
theorem kinds_of_settled
    {origin : Origin} {resolution : Resolution} {spelled : Except Failure Text}
    {rebased : RebasedToken} (h : settled origin token resolution spelled = .ok rebased) :
    ∃ ambiguous missing : Bool,
      rebased.diagnostics.map (·.kind) =
        (if ambiguous then [.resolutionAmbiguous] else []) ++
          (if missing then [.assetNotFound] else []) ∧
      (ambiguous = true ↔ resolution.shadowed ≠ []) ∧
      (missing = true ↔ (∃ candidates, resolution = .notFound candidates) ∨
        ((∃ path, resolution.path? = some path) ∧ ∃ error, spelled = .error (.file error))) ∧
      (resolution = .ignored ∨ missing = true → rebased.text = token.raw) ∧
      ∀ path, rebased.asset = some path ↔ resolution.path? = some path ∧ missing = false := by
  rcases settled_cases h with ⟨rfl, rfl⟩ | ⟨candidates, rfl, rfl⟩ |
    ⟨path, candidates, shadowed, text, rfl, rfl, rfl⟩ |
    ⟨path, candidates, shadowed, error, rfl, rfl, rfl⟩
  · exact ⟨false, false, by simp [Resolution.shadowed, Resolution.path?]⟩
  · exact ⟨false, true, by simp [Resolution.shadowed, Resolution.path?, notFoundDiagnostic,
      Diagnostic.at]⟩
  · obtain ⟨ambiguous, hkinds, hambiguous⟩ := kinds_ambiguousDiagnostics token path shadowed
    exact ⟨ambiguous, false, by simp [hkinds, hambiguous, Resolution.shadowed,
      Resolution.path?]⟩
  · obtain ⟨ambiguous, hkinds, hambiguous⟩ := kinds_ambiguousDiagnostics token path shadowed
    exact ⟨ambiguous, true, by simp [hkinds, hambiguous, Resolution.shadowed,
      Resolution.path?, unreadableDiagnostic, Diagnostic.at]⟩

/-- All that is said of a token is said of its place. -/
theorem places_of_settled
    {origin : Origin} {resolution : Resolution} {spelled : Except Failure Text}
    {rebased : RebasedToken} (h : settled origin token resolution spelled = .ok rebased)
    {diagnostic : Diagnostic}
    (hdiagnostic : diagnostic ∈ unmappedDiagnostics sheet origin token ++ rebased.diagnostics) :
    diagnostic.line = some (token.place.line : Int) ∧
      diagnostic.column = some (token.place.column : Int) := by
  have hunmapped : diagnostic ∈ unmappedDiagnostics sheet origin token →
      ∃ kind message, diagnostic = .at token kind message := by
    unfold unmappedDiagnostics
    split <;> simp +contextual
  have hambiguous {path : Text} {shadowed : List Text} :
      diagnostic ∈ ambiguousDiagnostics token path shadowed →
        ∃ kind message, diagnostic = .at token kind message := by
    unfold ambiguousDiagnostics
    split <;> simp +contextual
  have hat : ∃ kind message, diagnostic = .at token kind message := by
    rcases List.mem_append.mp hdiagnostic with hdiagnostic | hdiagnostic
    · exact hunmapped hdiagnostic
    rcases settled_cases h with ⟨rfl, rfl⟩ | ⟨candidates, rfl, rfl⟩ |
      ⟨path, candidates, shadowed, text, rfl, rfl, rfl⟩ |
      ⟨path, candidates, shadowed, error, rfl, rfl, rfl⟩
    · simp at hdiagnostic
    · exact ⟨_, _, List.mem_singleton.mp hdiagnostic⟩
    · exact hambiguous hdiagnostic
    · rcases List.mem_append.mp hdiagnostic with hdiagnostic | hdiagnostic
      · exact hambiguous hdiagnostic
      · exact ⟨_, _, List.mem_singleton.mp hdiagnostic⟩
  obtain ⟨kind, message, rfl⟩ := hat
  exact ⟨rfl, rfl⟩

/-- There are shadowed files exactly where several candidates are files. -/
theorem shadowed_ne_nil_iff
    {searchPath : SearchPath} {files : FileSystem} {directory : Text} {payload : Payload}
    {resolution : Resolution}
    (h : searchPath.answer files directory payload = .ok resolution) :
    resolution.shadowed ≠ [] ↔ 1 < (resolution.candidates.filter files.isFile).length := by
  unfold SearchPath.answer at h
  split at h
  · obtain rfl := Except.ok.inj h
    simp [Resolution.shadowed, Resolution.candidates]
  · obtain ⟨candidates, -, rfl⟩ := Except.map_eq_ok.mp h
    rw [SearchPath.candidates_ofFiles]
    rcases candidates.filter files.isFile with _ | ⟨path, _ | ⟨other, shadowed⟩⟩ <;>
      simp [Resolution.ofFiles, Resolution.shadowed]

/-- Only the spelling of a token that leads to a file fails. -/
theorem exists_path?_of_rebase_error
    {resolution : Resolution} {error : Failure}
    (h : Runs (token.rebase rebaser.nameFile rebaser.options.mode rebaser.options.keepQuery
      resolution) before (.error error) after) :
    ∃ path, resolution.path? = some path := by
  by_contra hnone
  have hpath : resolution.path? = none := by
    rw [Option.eq_none_iff_forall_not_mem]
    exact fun path hpath => hnone ⟨path, hpath⟩
  rw [rebase_of_path?_eq_none _ _ _ _ hpath] at h
  cases (Prod.mk.inj h).1

theorem KeepsMemory.rebase
    {resolution : Resolution} {result : Except Failure Text} (hkeeps : rebaser.KeepsMemory seen)
    (hbefore : before.Remembers seen)
    (h : Runs (token.rebase rebaser.nameFile rebaser.options.mode rebaser.options.keepQuery
      resolution) before result after) :
    after.Remembers seen := by
  unfold Token.rebase at h
  split at h
  · obtain ⟨-, rfl⟩ := Prod.mk.inj h
    exact hbefore
  · rcases runs_bind_cases h with ⟨name, between, hname, hrest⟩ | ⟨error, -, hname⟩
    · obtain ⟨-, rfl⟩ := Prod.mk.inj hrest
      exact hkeeps _ hbefore hname
    · exact hkeeps _ hbefore hname
  · obtain ⟨-, rfl⟩ := Prod.mk.inj h
    exact hbefore

/-- The kinds of the diagnostics on a token, in order, given which of them there are. -/
def remarkKinds (unmapped ambiguous missing : Bool) : List DiagnosticKind :=
  (if unmapped then [.unmappedPosition] else []) ++
    ((if ambiguous then [.resolutionAmbiguous] else []) ++
      if missing then [.assetNotFound] else [])

theorem remarkKinds_sublist (unmapped ambiguous missing : Bool) :
    (remarkKinds unmapped ambiguous missing).Sublist
      [.unmappedPosition, .resolutionAmbiguous, .assetNotFound] := by
  cases unmapped <;> cases ambiguous <;> cases missing <;> decide

theorem unmappedPosition_mem_remarkKinds {unmapped ambiguous missing : Bool} :
    .unmappedPosition ∈ remarkKinds unmapped ambiguous missing ↔ unmapped = true := by
  cases unmapped <;> cases ambiguous <;> cases missing <;> decide

theorem resolutionAmbiguous_mem_remarkKinds {unmapped ambiguous missing : Bool} :
    .resolutionAmbiguous ∈ remarkKinds unmapped ambiguous missing ↔ ambiguous = true := by
  cases unmapped <;> cases ambiguous <;> cases missing <;> decide

theorem assetNotFound_mem_remarkKinds {unmapped ambiguous missing : Bool} :
    .assetNotFound ∈ remarkKinds unmapped ambiguous missing ↔ missing = true := by
  cases unmapped <;> cases ambiguous <;> cases missing <;> decide

/-- A token that is rebased is accounted for. -/
theorem account_of_rebaseToken
    {rebased : RebasedToken} (hattempt : rebaser.options.attemptResolve = true)
    (hkeeps : rebaser.KeepsMemory seen) (hbefore : before.Remembers seen)
    (h : Runs (rebaser.rebaseToken sheet ⟨map, sheet.sourceName⟩ token) before (.ok rebased)
      after) :
    after.Remembers seen ∧
      ∃ course, Account rebaser sheet map seen before token rebased after course := by
  obtain ⟨origin, directory, resolution, between, outcome, horigin, hdirectory, hresolve,
    hresolved, rfl⟩ := exists_of_rebaseToken hattempt h
  obtain ⟨hbetween, files, hseen, hanswer⟩ := remembers_resolve hbefore hresolve
  rw [rebaseResolved_eq] at hresolved
  obtain ⟨spelled, _, hattempted, hlift⟩ := exists_of_bind hresolved
  obtain ⟨_, heq, hspelled⟩ := Blind.runs_of_attempt hattempted
  obtain rfl := Except.ok.inj heq
  obtain ⟨hsettled, rfl⟩ := Prod.mk.inj hlift
  obtain ⟨ambiguous, missing, hkinds, hambiguous, hmissing, hkept, hasset⟩ :=
    kinds_of_settled hsettled
  refine ⟨hkeeps.rebase hbetween hspelled, ⟨origin, directory, files, resolution, spelled⟩, ?_⟩
  have hall : (unmappedDiagnostics sheet origin token ++ outcome.diagnostics).map (·.kind) =
      remarkKinds (!origin.mapped) ambiguous missing := by
    rw [List.map_append, kinds_unmappedDiagnostics, hkinds, remarkKinds]
    cases origin.mapped <;> rfl
  have hnotFound : .assetNotFound ∈
      (unmappedDiagnostics sheet origin token ++ outcome.diagnostics).map (·.kind) ↔
        missing = true := by
    rw [hall, assetNotFound_mem_remarkKinds]
  exact {
    origin := horigin
    directory := hdirectory
    seen := hseen
    answer := hanswer
    spelled := ⟨between, hresolve, hspelled⟩
    kinds := hall ▸ remarkKinds_sublist _ _ _
    places := fun diagnostic hdiagnostic => places_of_settled hsettled hdiagnostic
    unmapped := by
      rw [hall, unmappedPosition_mem_remarkKinds, Bool.not_eq_true']
      exact mapped_eq_false_iff horigin
    ambiguous := by
      rw [hall, resolutionAmbiguous_mem_remarkKinds, hambiguous]
      exact shadowed_ne_nil_iff hanswer
    missing := by
      rw [hnotFound, hmissing]
      refine or_congr_right (and_iff_right_of_imp ?_)
      rintro ⟨error, rfl⟩
      exact exists_path?_of_rebase_error hspelled
    kept := by
      rw [hnotFound]
      exact hkept
    asset := by
      rw [hnotFound, Bool.not_eq_true]
      exact hasset }

/-- Tokens that are rebased one after the other are accounted for. -/
theorem accounted_of_mapM
    {tokens : List Token} {rebased : List RebasedToken}
    (hattempt : rebaser.options.attemptResolve = true) (hkeeps : rebaser.KeepsMemory seen)
    (hbefore : before.Remembers seen)
    (h : Runs (tokens.mapM (rebaser.rebaseToken sheet ⟨map, sheet.sourceName⟩)) before
      (.ok rebased) after) :
    after.Remembers seen ∧ Accounted rebaser sheet map seen before tokens rebased after := by
  induction tokens generalizing before rebased with
  | nil =>
      obtain ⟨rfl, rfl⟩ := eq_of_pure h
      exact ⟨hbefore, .nil before⟩
  | cons token tokens ih =>
      obtain ⟨outcome, between, others, htoken, hothers, rfl⟩ := exists_of_mapM_cons h
      obtain ⟨hbetween, course, haccount⟩ :=
        account_of_rebaseToken hattempt hkeeps hbefore htoken
      obtain ⟨hafter, hrest⟩ := ih hbetween hothers
      exact ⟨hafter, .cons haccount hrest⟩

end Account

/-- The diagnostics of a run that returns are at most one on the map and those of the tokens
in order; each token is accounted for.  The assets are the files that the tokens without a
diagnostic on a missing file name, each where it is first named. -/
theorem run_accounted
    {rebaser : Rebaser} {sheet : StyleSheet} {before after : Workspace} {result : RebasedSheet}
    {seen : FileSystem → Prop} (hattempt : rebaser.options.attemptResolve = true)
    (hkeeps : rebaser.KeepsMemory seen) (hbefore : before.Remembers seen)
    (hruns : Runs (rebaser.run sheet) before (.ok result) after) :
    after.Remembers seen ∧
    ∃ map remarks rebased between, readMap sheet = .ok (map, remarks) ∧
      remarks.length ≤ 1 ∧
      (∀ remark ∈ remarks, remark.kind = .malformedSourceMap ∧ remark.line = none) ∧
      Accounted rebaser sheet map seen before (Token.scan (rebaser.scannedText sheet)) rebased
        between ∧
      result.diagnostics = remarks ++ rebased.flatMap (·.diagnostics) ∧
      result.text = Edit.splice (rebaser.scannedText sheet)
        (RebasedToken.edits (Token.scan (rebaser.scannedText sheet)) rebased) ∧
      result.assets = (rebased.filterMap (·.asset)).eraseDups ∧ result.assets.Nodup := by
  obtain ⟨map, remarks, rebased, between, hreturned, htokens, hlogs⟩ := exists_of_run hruns
  obtain ⟨hlength, hremarks⟩ := remarks_of_readMap hreturned.read
  obtain ⟨hbetween, haccounted⟩ := accounted_of_mapM hattempt hkeeps hbefore htokens
  have hafter : after.Remembers seen := by
    obtain ⟨log, rfl⟩ := hlogs
    exact hbetween.congr rfl rfl
  refine ⟨hafter, map, remarks, rebased, between, hreturned.read, hlength, hremarks, haccounted,
    hreturned.diagnostics, hreturned.text, hreturned.assets, ?_⟩
  rw [hreturned.assets]
  exact List.nodup_eraseDups _

/-! ## An outcome that is kept -/

/-- A rebaser that looks in two module directories. -/
def ofTwoModules : Rebaser where
  options := {}
  searchPath := ⟨["/a".text, "/b".text], none, false⟩
  nameFile := Work.digestName

def modularSheet : StyleSheet where
  text := "url(~x.png)".text
  path := "/c.css".text

/-- The named file in both module directories. -/
def sameNames : FileSystem :=
  ((FileSystem.empty "/".text).place "/a/x.png".text ⟨.empty, 1, true⟩).place "/b/x.png".text
    ⟨.empty, 1, true⟩

theorem run_accounted_of_same_names :
    ∃ result after rebased between,
      Runs (ofTwoModules.run modularSheet) { files := sameNames } (.ok result) after ∧
      after.Remembers (· = sameNames) ∧
      Accounted ofTwoModules modularSheet none (· = sameNames) { files := sameNames }
        (Token.scan "url(~x.png)".text) rebased between ∧
      result.diagnostics = rebased.flatMap (·.diagnostics) ∧
      result.assets = (rebased.filterMap (·.asset)).eraseDups := by
  obtain ⟨result, hruns⟩ := exists_runs_of_isOk (ofTwoModules.run modularSheet)
    { files := sameNames } (by decide +kernel)
  obtain ⟨hafter, map, remarks, rebased, between, hread, -, -, haccounted, hdiagnostics, -,
    hassets, -⟩ := run_accounted rfl (keepsMemory_digestName _ _ (· = sameNames))
      (Workspace.remembers_of_files rfl) hruns
  obtain ⟨rfl, rfl⟩ := Prod.mk.inj (Except.ok.inj hread)
  exact ⟨result, _, rebased, between, hruns, hafter, haccounted, hdiagnostics, hassets⟩

/-- A token is said to lead to several files after all but one of them were removed. -/
theorem exists_remembered_shadow :
    ∃ (first second : RebasedSheet) (between after : Workspace) (candidates : List Text),
      Runs (ofTwoModules.run modularSheet) { files := sameNames } (.ok first) between ∧
      Runs (ofTwoModules.run modularSheet)
        { between with files := between.files.remove "/b/x.png".text } (.ok second) after ∧
      second.diagnostics.map (·.kind) = [.resolutionAmbiguous] ∧
      (Token.scan "url(~x.png)".text).map (·.payload.path) = ["~x.png".text] ∧
      ofTwoModules.searchPath.candidates "/".text "/".text "~x.png".text = .ok candidates ∧
      (candidates.filter (between.files.remove "/b/x.png".text).isFile).length = 1 := by
  let between : Workspace :=
    ((ofTwoModules.run modularSheet).run.run { files := sameNames }).2
  let removed : Workspace :=
    { between with files := between.files.remove "/b/x.png".text }
  obtain ⟨first, hfirst⟩ := exists_runs_of_isOk (ofTwoModules.run modularSheet)
    { files := sameNames } (by decide +kernel)
  obtain ⟨second, hsecond⟩ := exists_runs_of_isOk (ofTwoModules.run modularSheet)
    removed (by decide +kernel)
  have hkinds : ((ofTwoModules.run modularSheet).run.run removed).1.toOption.map
      (fun result => result.diagnostics.map (·.kind)) = some [.resolutionAmbiguous] := by
    decide +kernel
  refine ⟨first, second, between, _, ["/a/x.png".text, "/b/x.png".text], hfirst, hsecond, ?_,
    by decide +kernel, by cbv, by decide +kernel⟩
  rw [show (_ : Except Failure RebasedSheet × Workspace) = _ from hsecond] at hkinds
  exact Option.some.inj hkinds

end Rebaser

end UrlRebase
