import UrlRebase.Proofs.KnownFiles

/-!
# Steady runs

On workspaces that know some files a rebaser does the same whatever is held in the caches:
what becomes of a token is told by the files, and by how the files that it may lead to are
named.
-/

namespace UrlRebase

open Work

theorem Except.mapM_eq_ok_iff
    {ε α β : Type} {f : α → Except ε β} {list : List α} {bs : List β} :
    list.mapM f = .ok bs ↔ List.Forall₂ (fun a b => f a = .ok b) list bs := by
  induction list generalizing bs with
  | nil =>
      rw [List.mapM_nil, List.forall₂_nil_left_iff]
      exact ⟨fun h => (Except.ok.inj h).symm, fun h => h ▸ rfl⟩
  | cons a rest ih =>
      rw [List.mapM_cons, Except.bind_eq_ok, List.forall₂_cons_left_iff]
      constructor
      · rintro ⟨b, hb, h⟩
        obtain ⟨others, hothers, h⟩ := Except.bind_eq_ok.mp h
        obtain rfl := Except.ok.inj h
        exact ⟨b, others, hb, ih.mp hothers, rfl⟩
      · rintro ⟨b, others, hb, hothers, rfl⟩
        exact ⟨b, hb, Except.bind_eq_ok.mpr ⟨others, ih.mpr hothers, rfl⟩⟩

namespace Rebaser

variable {rebaser : Rebaser} {paths : Set Text} {files : FileSystem} {sheet : StyleSheet}
  {lineage : Lineage} {token : Token} {named : Text → Except Failure Text}

def leadsTo (rebaser : Rebaser) (files : FileSystem) (sheet : StyleSheet) (lineage : Lineage)
    (origin : Origin) (token : Token) : Except Failure Resolution := do
  let directory ← referenceDirectory files.current sheet lineage origin
  rebaser.searchPath.answer files directory token.payload

def rebasedAs (rebaser : Rebaser) (named : Text → Except Failure Text) (files : FileSystem)
    (sheet : StyleSheet) (lineage : Lineage) (token : Token) : Except Failure RebasedToken := do
  let origin ← (lineage.origin ⟨token.place.line, token.place.column⟩).mapError .mapUse
  let unmapped := unmappedDiagnostics sheet origin token
  if !rebaser.options.attemptResolve then return { text := token.raw, diagnostics := unmapped }
  let resolution ← rebaser.leadsTo files sheet lineage origin token
  let rebased ← settled origin token resolution
    (token.rebase named rebaser.options.mode rebaser.options.keepQuery resolution)
  return { rebased with diagnostics := unmapped ++ rebased.diagnostics }

theorem rebasedAs_eq_ok_iff
    {rebased : RebasedToken} (hattempt : rebaser.options.attemptResolve = true) :
    rebaser.rebasedAs named files sheet lineage token = .ok rebased ↔
      ∃ origin resolution outcome,
        lineage.origin ⟨token.place.line, token.place.column⟩ = .ok origin ∧
        rebaser.leadsTo files sheet lineage origin token = .ok resolution ∧
        settled origin token resolution (token.rebase named rebaser.options.mode
          rebaser.options.keepQuery resolution) = .ok outcome ∧
        rebased = { outcome with
          diagnostics := unmappedDiagnostics sheet origin token ++ outcome.diagnostics } := by
  unfold rebasedAs
  simp only [hattempt, Bool.not_true, Bool.false_eq_true, if_false, Except.bind_eq_ok,
    Except.mapError_eq_ok]
  constructor
  · rintro ⟨origin, horigin, resolution, hresolution, outcome, houtcome, hrebased⟩
    exact ⟨origin, resolution, outcome, horigin, hresolution, houtcome,
      (Except.ok.inj hrebased).symm⟩
  · rintro ⟨origin, resolution, outcome, horigin, hresolution, houtcome, rfl⟩
    exact ⟨origin, horigin, resolution, hresolution, outcome, houtcome, rfl⟩

theorem rebasedAs_eq_ok_iff_of_unresolved
    {rebased : RebasedToken} (hattempt : rebaser.options.attemptResolve = false) :
    rebaser.rebasedAs named files sheet lineage token = .ok rebased ↔
      ∃ origin, lineage.origin ⟨token.place.line, token.place.column⟩ = .ok origin ∧
        rebased = { text := token.raw
                    diagnostics := unmappedDiagnostics sheet origin token } := by
  unfold rebasedAs
  simp only [hattempt, Bool.not_false, if_true, Except.bind_eq_ok, Except.mapError_eq_ok]
  constructor
  · rintro ⟨origin, horigin, hrebased⟩
    exact ⟨origin, horigin, (Except.ok.inj hrebased).symm⟩
  · rintro ⟨origin, horigin, rfl⟩
    exact ⟨origin, horigin, rfl⟩

/-- Whether a path is a candidate of a token. -/
def LooksAt (rebaser : Rebaser) (current : Text) (sheet : StyleSheet) (lineage : Lineage)
    (token : Token) (path : Text) : Prop :=
  ∃ origin directory candidates,
    lineage.origin ⟨token.place.line, token.place.column⟩ = .ok origin ∧
    referenceDirectory current sheet lineage origin = .ok directory ∧
    rebaser.searchPath.candidates current directory token.payload.path = .ok candidates ∧
    path ∈ candidates

theorem path?_mem_of_answer
    {searchPath : SearchPath} {directory : Text} {payload : Payload} {resolution : Resolution}
    (hstays : searchPath.StaysIn paths files.current directory payload.path)
    (h : searchPath.answer files directory payload = .ok resolution) :
    ∀ path, resolution.path? = some path → path ∈ paths := by
  unfold SearchPath.answer at h
  split at h
  · obtain rfl := Except.ok.inj h
    simp [Resolution.path?]
  · unfold SearchPath.outcome at h
    cases hcandidates : searchPath.candidates files.current directory payload.path with
    | error error => simp [hcandidates, Except.map] at h
    | ok candidates =>
        rw [hcandidates] at h
        obtain rfl := Except.ok.inj h
        intro path hpath
        have hmem := Resolution.mem_of_path?_ofFiles hpath
        exact hstays candidates hcandidates path (List.mem_filter.mp hmem).1

/-- Whether files are named in a certain way, if references are spelt by such names. -/
def NamesAs (rebaser : Rebaser) (named : Text → Except Failure Text) (paths : Set Text)
    (files : FileSystem) : Prop :=
  rebaser.options.mode = .contentDerived →
    ∀ path ∈ paths, Gives paths files (rebaser.nameFile path) (named path)

theorem gives_rebase
    {resolution : Resolution} (hnamed : rebaser.NamesAs named paths files)
    (hpath : ∀ path, resolution.path? = some path → path ∈ paths) (token : Token) :
    Gives paths files
      (token.rebase rebaser.nameFile rebaser.options.mode rebaser.options.keepQuery resolution)
      (token.rebase named rebaser.options.mode rebaser.options.keepQuery resolution) := by
  unfold Token.rebase
  split
  · exact Gives.of_pure _
  · rename_i path candidates shadowed hmode
    exact (hnamed hmode path (hpath path rfl)).bind fun name _ => Gives.of_pure _
  · exact Gives.of_pure _

theorem gives_rebaseToken
    (hnamed : rebaser.NamesAs named paths files)
    (hlooks : ∀ path, rebaser.LooksAt files.current sheet lineage token path → path ∈ paths) :
    Gives paths files (rebaser.rebaseToken sheet lineage token)
      (rebaser.rebasedAs named files sheet lineage token) := by
  unfold rebaseToken rebasedAs
  refine Gives.lift_bind fun origin horigin => ?_
  simp only
  split
  · exact Gives.of_pure _
  · unfold leadsTo
    rw [bind_assoc]
    refine gives_current.bind_ok (Gives.lift_bind fun directory hdirectory => ?_)
    have hstays : rebaser.searchPath.StaysIn paths files.current directory token.payload.path :=
      fun candidates hcandidates path hpath => hlooks path ⟨origin, directory, candidates,
        Except.mapError_eq_ok.mp horigin, hdirectory, hcandidates, hpath⟩
    refine (SearchPath.gives_resolve hstays).bind fun resolution hresolution => ?_
    have hspelled := gives_rebase hnamed (path?_mem_of_answer hstays hresolution) token
    rw [rebaseResolved_eq, bind_assoc]
    exact hspelled.attempt.bind_ok (Gives.lift_bind fun rebased _ => Gives.of_pure _)

/-! ## Style sheets -/

def runAs (rebaser : Rebaser) (named : Text → Except Failure Text) (files : FileSystem)
    (sheet : StyleSheet) : Except Failure RebasedSheet := do
  let text := rebaser.scannedText sheet
  let (map, remarks) ← readMap sheet
  let lineage : Lineage := ⟨map, sheet.sourceName⟩
  let rebased ← (Token.scan text).mapM (rebaser.rebasedAs named files sheet lineage)
  let edits := RebasedToken.edits (Token.scan text) rebased
  let output := Edit.splice text edits
  checkCount sheet edits output
  let outgoing ← rebaser.outgoingMap text edits lineage
  return {
    text := output
    map := outgoing
    assets := (rebased.filterMap (·.asset)).eraseDups
    diagnostics := remarks ++ rebased.flatMap (·.diagnostics) }

theorem runAs_eq_ok_iff {result : RebasedSheet} :
    rebaser.runAs named files sheet = .ok result ↔
      ∃ map remarks rebased, Returned rebaser sheet map remarks rebased result ∧
        List.Forall₂
          (fun token rebased => rebaser.rebasedAs named files sheet ⟨map, sheet.sourceName⟩
            token = .ok rebased)
          (Token.scan (rebaser.scannedText sheet)) rebased := by
  unfold runAs
  constructor
  · intro h
    obtain ⟨⟨map, remarks⟩, hread, h⟩ := Except.bind_eq_ok.mp h
    obtain ⟨rebased, hrebased, h⟩ := Except.bind_eq_ok.mp h
    obtain ⟨_, hcounted, h⟩ := Except.bind_eq_ok.mp h
    obtain ⟨outgoing, houtgoing, h⟩ := Except.bind_eq_ok.mp h
    obtain rfl := Except.ok.inj h
    exact ⟨map, remarks, rebased, ⟨hread, hcounted, houtgoing, rfl, rfl, rfl⟩,
      Except.mapM_eq_ok_iff.mp hrebased⟩
  · rintro ⟨map, remarks, rebased, hreturned, hrebased⟩
    obtain ⟨text, outgoing, assets, diagnostics⟩ := result
    obtain ⟨hread, hcounted, houtgoing, rfl, rfl, rfl⟩ := hreturned
    refine Except.bind_eq_ok.mpr ⟨_, hread, Except.bind_eq_ok.mpr ⟨rebased,
      Except.mapM_eq_ok_iff.mpr hrebased, Except.bind_eq_ok.mpr ⟨⟨⟩, hcounted,
      Except.bind_eq_ok.mpr ⟨outgoing, houtgoing, rfl⟩⟩⟩⟩

/-- A run does on workspaces that know the files what it does on the files alone. -/
theorem gives_run
    (hnamed : rebaser.NamesAs named paths files)
    (hlooks : ∀ map remarks, readMap sheet = .ok (map, remarks) →
      ∀ token ∈ Token.scan (rebaser.scannedText sheet), ∀ path,
        rebaser.LooksAt files.current sheet ⟨map, sheet.sourceName⟩ token path → path ∈ paths) :
    Gives paths files (rebaser.run sheet) (rebaser.runAs named files sheet) := by
  unfold run runAs
  refine Gives.lift_bind fun ⟨map, remarks⟩ hread => ?_
  refine (Gives.mapM fun token htoken =>
    gives_rebaseToken hnamed (hlooks map remarks hread token htoken)).bind fun rebased _ => ?_
  refine Gives.lift_bind fun _ _ => Gives.lift_bind fun outgoing _ => ?_
  simp only
  split
  · exact Gives.of_pure _
  · exact (Gives.forIn fun diagnostic _ => gives_log _ _).bind_ok (Gives.of_pure _)

end Rebaser

end UrlRebase
