import UrlRebase.Proofs.BuiltSheets

/-!
# Builds that only read

Whatever references are rebased to and whichever processors run, building an asset changes no
file and writes none, whether it gives a text or fails on the way.
-/

namespace UrlRebase

open Workspace Work

variable {before : Workspace}

namespace Rebaser

variable {rebaser : Rebaser}
  (hname : ∀ path before, Leads Reads (rebaser.nameFile path) before fun _ _ => True)
include hname

theorem reads_rebaseResolved (origin : Origin) (token : Token) (resolution : Resolution) :
    Leads Reads (rebaser.rebaseResolved origin token resolution) before fun _ _ => True := by
  unfold rebaseResolved
  cases resolution with
  | ignored => exact Leads.of_pure trivial
  | notFound candidates => exact Leads.of_pure trivial
  | found path candidates shadowed =>
      have hrebase : Leads Reads
          (token.rebase rebaser.nameFile rebaser.options.mode rebaser.options.keepQuery
            (.found path candidates shadowed)) before fun _ _ => True := by
        unfold Token.rebase
        cases rebaser.options.mode with
        | absolute => exact Leads.of_pure trivial
        | contentDerived =>
            apply (hname path before).bind
            exact fun _ _ _ _ => Leads.of_pure trivial
        | keep => exact Leads.of_pure trivial
      apply hrebase.attempt.bind
      intro outcome between _ _
      cases outcome with
      | ok text => exact Leads.of_pure trivial
      | error error =>
          cases error with
          | file error => exact Leads.of_pure trivial
          | _ => exact Leads.of_throw _

theorem reads_rebaseToken (sheet : StyleSheet) (lineage : Lineage) (token : Token) :
    Leads Reads (rebaser.rebaseToken sheet lineage token) before fun _ _ => True := by
  unfold rebaseToken
  apply Leads.lift_bind
  intro origin _
  simp only
  split
  · exact Leads.of_pure trivial
  · apply leads_current.bind
    intro current between _ _
    apply Leads.lift_bind
    intro directory _
    apply (rebaser.searchPath.leads_resolve directory token.payload).bind
    intro resolution between _ _
    apply (reads_rebaseResolved hname origin token resolution).bind
    exact fun _ _ _ _ => Leads.of_pure trivial

theorem reads_run (sheet : StyleSheet) :
    Leads Reads (rebaser.run sheet) before fun _ _ => True := by
  unfold run
  simp only
  apply Leads.lift_bind
  rintro ⟨map, remarks⟩ -
  apply (Leads.mapM fun token _ between _ => reads_rebaseToken hname sheet _ token).bind
  intro rebased known _ _
  apply Leads.lift_bind
  intro _ _
  apply Leads.lift_bind
  intro outgoing _
  split
  · exact Leads.of_pure trivial
  · apply (Leads.forIn fun _ _ _ => leads_log _ _).bind
    exact fun _ _ _ _ => Leads.of_pure trivial

end Rebaser

namespace Packer

variable {packer : Packer}

theorem reads_rebaseDraft (input : Input) (draft : Draft) :
    Leads Reads (packer.rebaseDraft input draft) before fun _ _ => True := by
  have hname (path : Text) (before : Workspace) :
      Leads Reads (packer.rebaser.nameFile path) before fun _ _ => True :=
    (leads_urlOf path).mono fun _ _ _ _ => trivial
  unfold rebaseDraft
  apply (Rebaser.reads_run hname _).bind
  intro result between _ _
  have hmodify : Leads Reads
      (modify fun workspace =>
        { workspace with assets := (workspace.assets ++ result.assets).eraseDups } : Work PUnit)
      between fun _ _ => True :=
    Leads.of_modify ⟨rfl, ⟨fun _ _ h => h, fun path hpath =>
      List.mem_eraseDups.mpr (List.mem_append_left _ hpath), fun h => h⟩, rfl, fun _ h => h⟩ trivial
  apply hmodify.bind
  exact fun _ _ _ _ => Leads.of_pure trivial

theorem reads_runProcessor (input : Input) (draft : Draft) (registration : Setting) :
    Leads Reads (packer.runProcessor input draft registration) before fun _ _ => True := by
  unfold runProcessor
  apply Leads.lift_bind
  intro processor _
  cases processor with
  | minify => exact leads_minify input draft
  | rebase => exact reads_rebaseDraft input draft
  | compile => exact leads_compile input draft
  | external run =>
      apply Leads.lift_bind
      exact fun _ _ => Leads.of_pure trivial

/-- A text that is read is not the one of a directory. -/
theorem reads_readText (path : Text) :
    Leads Reads (readText path) before fun _ after =>
      before.files.isDirectory path = false ∧ after = before := by
  unfold readText
  apply (leads_read path).bind
  rintro bytes between - ⟨hread, rfl⟩
  have hplain : between.files.isDirectory path = false := by
    unfold FileSystem.read at hread
    split at hread
    · cases hread
    · rename_i hplain
      simpa using hplain
  split
  · exact Leads.of_throw _
  · exact Leads.of_pure ⟨hplain, rfl⟩

theorem reads_process (input : Input) :
    Leads Reads (packer.process input) before fun _ _ =>
      before.files.isDirectory input.path = false := by
  unfold process
  apply (reads_readText input.path).bind
  rintro text between - ⟨hplain, rfl⟩
  exact (Leads.foldlM fun draft registration _ _ => reads_runProcessor input draft registration).mono
    fun _ _ _ _ => hplain

/-- Parts can be built of no input that is a directory. -/
theorem reads_buildParts (separator : Setting) (output : Text) (inputs : List Input) :
    Leads Reads (packer.buildParts separator output inputs) before fun _ _ =>
      ∀ input ∈ inputs, before.files.isDirectory input.path = false := by
  induction inputs generalizing before with
  | nil => exact Leads.of_pure (by simp)
  | cons input rest ih =>
      unfold buildParts
      apply (reads_process input).bind
      intro draft between hbetween hplain
      extract_lets next
      have hnext (text : Text) : Leads Reads (next text) between fun _ _ =>
          ∀ other ∈ input :: rest, before.files.isDirectory other.path = false := by
        unfold next
        apply leads_current.bind
        rintro current same - ⟨-, hsame⟩
        obtain rfl := hsame.symm
        apply Leads.lift_bind
        intro map _
        apply ih.bind
        intro parts _ _ hrest
        rw [hbetween.files] at hrest
        exact Leads.of_pure (List.forall_mem_cons.mpr ⟨hplain, hrest⟩)
      split
      · rw [pure_bind]
        exact hnext _
      · rw [pure_bind]
        exact hnext _
      · exact Leads.of_throw _

theorem reads_build (name : Text) (inputs : List Input) (output : Text) :
    Leads Reads (packer.build name inputs output) before fun _ _ =>
      ∀ input ∈ inputs, before.files.isDirectory input.path = false := by
  unfold build
  apply (leads_log _ _).bind
  intro _ between hbetween _
  apply (reads_buildParts _ _ _).bind
  intro built after _ hplain
  rw [hbetween.files] at hplain
  simp only
  split
  · apply Leads.lift_bind
    exact fun _ _ => Leads.of_pure hplain
  · exact Leads.of_pure hplain

end Packer

end UrlRebase
