import UrlRebase.Pack.Build
import UrlRebase.Proofs.GrowingWorkspace

/-!
# References that name files by their content

While an asset is built, nothing but what is known about files changes.  Each reference
that gets another text names a file by the URL of the name that the workspace holds for it,
and the file is noted among those that were found.
-/

namespace UrlRebase

open Workspace Work

/-! ## Steps that only read -/

section Steps

variable {R : Workspace → Workspace → Prop} [IsPreorder Workspace R] {before : Workspace}

theorem leads_current :
    Leads R current before fun current after => current = before.files.current ∧ after = before :=
  Leads.get_bind (Leads.of_pure ⟨rfl, rfl⟩)

theorem leads_exists? (path : Text) :
    Leads R (exists? path) before fun there after =>
      there = before.files.exists? path ∧ after = before :=
  Leads.get_bind (Leads.of_pure ⟨rfl, rfl⟩)

theorem leads_read (path : Text) :
    Leads R (read path) before fun bytes after =>
      before.files.read path = .ok bytes ∧ after = before := by
  refine Leads.get_bind (Leads.of_lift fun bytes hbytes => ⟨?_, rfl⟩)
  cases hread : before.files.read path with
  | ok found =>
      rw [hread] at hbytes
      exact congrArg Except.ok (Except.ok.inj hbytes)
  | error error =>
      rw [hread] at hbytes
      cases hbytes

theorem leads_readText (path : Text) :
    Leads R (readText path) before fun _ after => after = before := by
  unfold readText
  apply (leads_read path).bind
  rintro bytes between - ⟨-, rfl⟩
  split
  · exact Leads.of_throw _
  · exact Leads.of_pure rfl

theorem leads_log (level : LogLevel) (message : Text) :
    Leads Reads (log level message) before fun _ _ => True :=
  Leads.of_modify (.of_eq rfl rfl rfl rfl) trivial

theorem leads_isFile (path : Text) : Leads Reads (isFile path) before fun _ _ => True := by
  have hcount : Leads Reads
      (modify fun workspace => { workspace with lookups := workspace.lookups + 1 } : Work PUnit)
      before fun _ _ => True :=
    Leads.of_modify (.of_eq rfl rfl rfl rfl) trivial
  apply hcount.bind
  intro _ between _ _
  exact Leads.get_bind (Leads.of_pure trivial)

end Steps

variable {before : Workspace}

theorem SearchPath.leads_lookUp (searchPath : SearchPath) (directory path : Text) :
    Leads Reads (searchPath.lookUp directory path) before fun _ _ => True := by
  unfold lookUp
  apply leads_current.bind
  intro current between _ _
  apply Leads.lift_bind
  intro candidates _
  apply (Leads.filterM fun candidate _ between => leads_isFile candidate).bind
  intro files between _ _
  simp only
  split
  · apply (leads_log _ _).bind
    exact fun _ _ _ _ => Leads.of_pure trivial
  · exact Leads.of_pure trivial

theorem SearchPath.leads_resolve
    (searchPath : SearchPath) (directory : Text) (payload : Payload) :
    Leads Reads (searchPath.resolve directory payload) before fun _ _ => True := by
  unfold resolve
  split
  · exact Leads.of_pure trivial
  · apply leads_fetch fun _ _ => True
    · exact fun _ _ => trivial
    · exact fun _ => leads_lookUp searchPath directory payload.path
    · exact fun _ _ _ _ => ⟨.of_eq rfl rfl rfl rfl, trivial⟩

/-- More is known once the name of a file after its content is held that was not held before. -/
theorem reads_insert_name
    {path : Text} {bytes : ByteArray} (hnone : before.names.find? path = none)
    (hbytes : (before.files.file? path).map (·.bytes) = some bytes) :
    before.Reads { before with names := before.names.insert path (digestName bytes path) } := by
  have hself : (before.names.insert path (digestName bytes path)).find? path =
      some (digestName bytes path) :=
    Cache.find?_insert_self _ _ _
  have hothers {other : Text} (hne : other ≠ path) :
      (before.names.insert path (digestName bytes path)).find? other =
        before.names.find? other :=
    Cache.find?_insert_of_ne _ _ hne
  refine ⟨rfl, ⟨?_, List.Subset.refl _, ?_⟩, rfl, ?_⟩
  · intro other held hheld
    have hne : other ≠ path := by
      rintro rfl
      rw [hnone] at hheld
      simp at hheld
    exact (hothers hne).trans hheld
  · intro hdigests other held hheld
    by_cases hother : other = path
    · subst hother
      exact Option.some.inj (hself.symm.trans hheld) ▸ ⟨bytes, rfl⟩
    · exact hdigests other held ((hothers hother).symm.trans hheld)
  · intro changed hnamed other held hheld
    by_cases hother : other = path
    · subst hother
      exact Option.some.inj (hself.symm.trans hheld) ▸ ⟨bytes, rfl, .inr hbytes⟩
    · exact hnamed other held ((hothers hother).symm.trans hheld)

/-- The name of a file after its content is held from then on. -/
theorem leads_digestName (path : Text) :
    Leads Reads (Work.digestName path) before fun name after =>
      after.names.find? path = some name := by
  unfold Work.digestName
  have hcount : Leads Reads
      (modify fun workspace => { workspace with reads := workspace.reads + 1 } : Work PUnit)
      before fun _ after => after.names = before.names :=
    Leads.of_modify (.of_eq rfl rfl rfl rfl) rfl
  apply leads_fetch fun name after => after.names.find? path = none ∧
    ∃ bytes, name = UrlRebase.digestName bytes path ∧
      (after.files.file? path).map (·.bytes) = some bytes
  · exact fun name hname => hname
  · intro hnone
    apply hcount.bind
    intro _ between _ hnames
    apply (leads_read path).bind
    rintro bytes between' - ⟨hbytes, rfl⟩
    exact Leads.of_pure ⟨hnames ▸ hnone, bytes, rfl, FileSystem.bytes_of_read hbytes⟩
  · rintro _ between - ⟨hnone, bytes, rfl, hbytes⟩
    exact ⟨reads_insert_name hnone hbytes, Cache.find?_insert_self _ _ _⟩

/-! ## Rebasing -/

namespace Packer

variable {packer : Packer}

def urlFor (packer : Packer) (name : Text) : Except Failure Text :=
  match packer.urlBase with
  | .text base => (Url.join base name).mapError .url
  | base => if base.truthy then .error .wrongKind else .ok name

theorem urlOf_eq (path : Text) :
    packer.urlOf path = Work.digestName path >>= fun name => lift (packer.urlFor name) := by
  unfold urlOf urlFor
  congr 1
  funext name
  cases packer.urlBase with
  | text base => rfl
  | _ =>
      simp only
      split <;> rfl

theorem leads_urlOf (path : Text) :
    Leads Reads (packer.urlOf path) before fun url after =>
      ∃ name, after.names.find? path = some name ∧ packer.urlFor name = .ok url := by
  rw [urlOf_eq]
  apply (leads_digestName path).bind
  exact fun name _ _ hname => Leads.of_lift fun url hurl => ⟨name, hname, hurl⟩

/-- Whether a rebased token is as it was written, or names the file that it leads to by the
URL of a name that the file has. -/
def NamesFile (packer : Packer) (hasName : Text → Text → Prop) (token : Token)
    (rebased : RebasedToken) : Prop :=
  match rebased.asset with
  | none => rebased.text = token.raw
  | some path => ∃ name url, hasName path name ∧ packer.urlFor name = .ok url ∧
      rebased.text = token.withPath packer.options.keepQuery url

theorem NamesFile.imp
    {hasName hasName' : Text → Text → Prop} {token : Token} {rebased : RebasedToken}
    (h : packer.NamesFile hasName token rebased)
    (himp : ∀ path name, rebased.asset = some path → hasName path name → hasName' path name) :
    packer.NamesFile hasName' token rebased := by
  unfold NamesFile at *
  cases hasset : rebased.asset with
  | none => rwa [hasset] at h
  | some path =>
      rw [hasset] at h
      obtain ⟨name, url, hname, hrest⟩ := h
      exact ⟨name, url, himp path name hasset hname, hrest⟩

variable (hmode : packer.options.mode = .contentDerived)
include hmode

theorem leads_rebaseResolved (origin : Origin) (token : Token) (resolution : Resolution) :
    Leads Reads (packer.rebaser.rebaseResolved origin token resolution) before
      fun rebased after => packer.NamesFile (after.names.find? · = some ·) token rebased := by
  unfold Rebaser.rebaseResolved
  cases resolution with
  | ignored => exact Leads.of_pure rfl
  | notFound candidates => exact Leads.of_pure rfl
  | found path candidates shadowed =>
      have hrebase : Leads Reads
          (token.rebase packer.urlOf packer.options.mode packer.options.keepQuery
            (.found path candidates shadowed)) before
          fun text after => ∃ name url, after.names.find? path = some name ∧
            packer.urlFor name = .ok url ∧
            text = token.withPath packer.options.keepQuery url := by
        rw [hmode]
        apply (leads_urlOf path).bind
        rintro url between - ⟨name, hname, hurl⟩
        exact Leads.of_pure ⟨name, url, hname, hurl, rfl⟩
      apply hrebase.attempt.bind
      intro outcome between _ houtcome
      cases outcome with
      | ok text => exact Leads.of_pure (houtcome text rfl)
      | error error =>
          cases error with
          | file error => exact Leads.of_pure rfl
          | _ => exact Leads.of_throw _

theorem leads_rebaseToken (sheet : StyleSheet) (lineage : Lineage) (token : Token) :
    Leads Reads (packer.rebaser.rebaseToken sheet lineage token) before
      fun rebased after => packer.NamesFile (after.names.find? · = some ·) token rebased := by
  unfold Rebaser.rebaseToken
  apply Leads.lift_bind
  intro origin _
  simp only
  split
  · exact Leads.of_pure rfl
  · apply leads_current.bind
    intro current between _ _
    apply Leads.lift_bind
    intro directory _
    apply (packer.rebaser.searchPath.leads_resolve directory token.payload).bind
    intro resolution between _ _
    apply (leads_rebaseResolved hmode origin token resolution).bind
    intro rebased between _ hrebased
    exact Leads.of_pure hrebased

omit hmode in
/-- Whether a text is another with its references rebased, each in some run with the given
files, and each that got another text names the file that it leads to by a name that the file
has. -/
def Rebases (packer : Packer) (files : FileSystem) (hasName : Text → Text → Prop)
    (authored text : Text) : Prop :=
  ∃ (sheet : StyleSheet) (lineage : Lineage) (rebased : List RebasedToken),
    sheet.text = authored ∧
    text = Edit.splice (packer.rebaser.scannedText sheet)
      ((Token.scan (packer.rebaser.scannedText sheet)).zipWith
        (fun token rebased => ⟨token, rebased.text⟩) rebased) ∧
    List.Forall₂ (fun token rebased =>
        (∃ from' to' : Workspace, from'.files = files ∧
          Runs (packer.rebaser.rebaseToken sheet lineage token) from' (.ok rebased) to') ∧
        packer.NamesFile hasName token rebased)
      (Token.scan (packer.rebaser.scannedText sheet)) rebased

omit hmode in
theorem Rebases.imp
    {files : FileSystem} {hasName hasName' : Text → Text → Prop} {authored text : Text}
    (h : packer.Rebases files hasName authored text)
    (himp : ∀ path name, hasName path name → hasName' path name) :
    packer.Rebases files hasName' authored text := by
  obtain ⟨sheet, lineage, rebased, hauthored, htext, hrebased⟩ := h
  refine ⟨sheet, lineage, rebased, hauthored, htext, hrebased.imp ?_⟩
  exact fun token rebased h => ⟨h.1, h.2.imp fun path name _ => himp path name⟩

theorem leads_run (sheet : StyleSheet) :
    Leads Reads (packer.rebaser.run sheet) before fun result after =>
      packer.Rebases before.files
        (fun path name => after.names.find? path = some name ∧ path ∈ result.assets)
        sheet.text result.text := by
  unfold Rebaser.run
  simp only
  apply Leads.lift_bind
  rintro ⟨map, remarks⟩ -
  apply (Leads.mapM fun token _ between _ => leads_rebaseToken hmode sheet _ token).bind
  intro rebased known hknown hrebased
  apply Leads.lift_bind
  intro _ _
  apply Leads.lift_bind
  intro outgoing _
  have hnamed {after : Workspace} (hafter : Reads known after) :
      List.Forall₂ (fun token rebased' =>
          (∃ from' to' : Workspace, from'.files = before.files ∧ Runs
            (packer.rebaser.rebaseToken sheet ⟨map, sheet.sourceName⟩ token) from'
            (.ok rebased') to') ∧
          packer.NamesFile (fun path name => after.names.find? path = some name ∧
            path ∈ (rebased.filterMap (·.asset)).eraseDups) token rebased')
        (Token.scan (packer.rebaser.scannedText sheet)) rebased := by
    refine List.forall₂_iff_zip.mpr ⟨hrebased.length_eq, ?_⟩
    intro token rebased' hzip
    obtain ⟨from', to', hfrom, hruns, hfile, hto⟩ := List.forall₂_zip hrebased hzip
    refine ⟨⟨from', to', hfrom.files, hruns⟩, hfile.imp ?_⟩
    intro path name hasset hname
    refine ⟨hafter.learns.names _ _ (hto.learns.names _ _ hname), List.mem_eraseDups.mpr ?_⟩
    exact List.mem_filterMap.mpr ⟨rebased', (List.of_mem_zip hzip).2, hasset⟩
  have hdone {after : Workspace} (hafter : Reads known after) :
      packer.Rebases before.files (fun path name => after.names.find? path = some name ∧
        path ∈ (rebased.filterMap (·.asset)).eraseDups) sheet.text _ :=
    ⟨sheet, _, rebased, rfl, rfl, hnamed hafter⟩
  split
  · exact Leads.of_pure (hdone (refl _))
  · apply (Leads.forIn fun _ _ _ => leads_log _ _).bind
    exact fun _ after hafter _ => Leads.of_pure (hdone hafter)

end Packer

end UrlRebase
