import UrlRebase.Proofs.NamedReferences

/-!
# What built assets name

The text of a built asset is the drafts of its inputs with the separator between them.  A
draft whose last processor rebases it names by their content files that are noted among
those that were found.
-/

namespace UrlRebase

open Workspace Work

namespace Packer

variable {packer : Packer} {before : Workspace}

/-- Whether a file was found and a workspace holds a name of it. -/
def FoundAs (workspace : Workspace) (path name : Text) : Prop :=
  path ∈ workspace.assets ∧ workspace.names.find? path = some name

theorem FoundAs.of_learns
    {after : Workspace} {path name : Text} (hlearns : Learns before after)
    (h : FoundAs before path name) : FoundAs after path name :=
  ⟨hlearns.assets h.1, hlearns.names path name h.2⟩

/-! ## Processors -/

theorem leads_minify (input : Input) (draft : Draft) :
    Leads Reads (packer.minify input draft) before fun _ _ => True := by
  unfold minify
  simp only
  split
  · apply (leads_log _ _).bind
    exact fun _ _ _ _ => Leads.of_pure trivial
  · exact Leads.of_pure trivial

theorem leads_compile (input : Input) (draft : Draft) :
    Leads Reads (packer.compile input draft) before fun _ _ => True := by
  unfold compile
  extract_lets includes stem compilation indented compileText next
  have hnext (untouched : Bool) (between : Workspace) :
      Leads Reads (next untouched) between fun _ _ => True := by
    unfold next
    split
    · apply (leads_log _ _).bind
      intro _ between _ _
      split
      · exact Leads.of_throw _
      · exact Leads.of_pure trivial
    · split
      · apply (leads_log _ _).bind
        exact fun _ _ _ _ => Leads.of_pure trivial
      · exact Leads.of_pure trivial
  split
  · apply (leads_readText input.path).bind
    intro text between _ _
    rw [pure_bind]
    exact hnext _ between
  · rw [pure_bind]
    exact hnext false before

theorem leads_rebaseDraft
    (hmode : packer.options.mode = .contentDerived) (input : Input) (draft : Draft) :
    Leads Reads (packer.rebaseDraft input draft) before fun rebased after =>
      packer.Rebases before.files (FoundAs after) draft.text rebased.text := by
  unfold rebaseDraft
  apply (leads_run hmode _).bind
  intro result between _ hresult
  have hnoted : between.assets ⊆ (between.assets ++ result.assets).eraseDups := by
    intro path hpath
    exact List.mem_eraseDups.mpr (List.mem_append_left _ hpath)
  have hmodify : Leads Reads
      (modify fun workspace =>
        { workspace with assets := (workspace.assets ++ result.assets).eraseDups } : Work PUnit)
      between fun _ after =>
        packer.Rebases before.files (FoundAs after) draft.text result.text := by
    refine Leads.of_modify ⟨rfl, ⟨fun _ _ h => h, hnoted, fun h => h⟩, rfl, fun _ h => h⟩
      (hresult.imp ?_)
    rintro path name ⟨hname, hpath⟩
    exact ⟨List.mem_eraseDups.mpr (List.mem_append_right _ hpath), hname⟩
  apply hmodify.bind
  exact fun _ _ _ hrebases => Leads.of_pure hrebases

theorem leads_runProcessor
    (hmode : packer.options.mode = .contentDerived) (input : Input) (draft : Draft)
    (registration : Setting) :
    Leads Reads (packer.runProcessor input draft registration) before fun result after =>
      Processor.find packer.tools registration = .ok .rebase →
        packer.Rebases before.files (FoundAs after) draft.text result.text := by
  unfold runProcessor
  apply Leads.lift_bind
  intro processor hprocessor
  have hother (hne : processor ≠ .rebase) {result : Draft} {after : Workspace}
      (hfind : Processor.find packer.tools registration = .ok .rebase) :
      packer.Rebases before.files (FoundAs after) draft.text result.text :=
    absurd (Except.ok.inj (hprocessor.symm.trans hfind)) hne
  cases processor with
  | minify => exact (leads_minify input draft).mono fun _ _ _ _ => hother (by simp)
  | rebase => exact (leads_rebaseDraft hmode input draft).mono fun _ _ _ h _ => h
  | compile => exact (leads_compile input draft).mono fun _ _ _ _ => hother (by simp)
  | external run =>
      apply Leads.lift_bind
      exact fun _ _ => Leads.of_pure (hother (by simp))

/-! ## Inputs -/

/-- The draft that reaches the last processor of an input, once those before it have run. -/
def draftBehind (packer : Packer) (input : Input) (registrations : List Setting) : Work Draft := do
  let text ← Work.readText input.path
  registrations.foldlM (packer.runProcessor input) { text }

/-- Whether a text is what an input becomes among the given files: if its last processor is
the one that rebases, then the draft that reaches it with its references rebased, each that
got another text naming its file by a name that it has. -/
def Shows (packer : Packer) (files : FileSystem) (hasName : Text → Text → Prop) (input : Input)
    (text : Text) : Prop :=
  ∀ registrations registration, input.processors = registrations ++ [registration] →
    Processor.find packer.tools registration = .ok .rebase →
      ∃ (from' to' : Workspace) (draft : Draft), from'.files = files ∧
        Runs (packer.draftBehind input registrations) from' (.ok draft) to' ∧
        packer.Rebases files hasName draft.text text

theorem Shows.imp
    {files : FileSystem} {hasName hasName' : Text → Text → Prop} {input : Input} {text : Text}
    (h : packer.Shows files hasName input text)
    (himp : ∀ path name, hasName path name → hasName' path name) :
    packer.Shows files hasName' input text := by
  intro registrations registration hprocessors hfind
  obtain ⟨from', to', draft, hfiles, hruns, hrebases⟩ :=
    h registrations registration hprocessors hfind
  exact ⟨from', to', draft, hfiles, hruns, hrebases.imp himp⟩

variable (hmode : packer.options.mode = .contentDerived)
include hmode

theorem leads_draftBehind (input : Input) (registrations : List Setting) :
    Leads Reads (packer.draftBehind input registrations) before fun _ _ => True := by
  unfold draftBehind
  apply (leads_readText input.path).bind
  intro text between _ _
  exact Leads.foldlM fun draft registration _ _ =>
    (leads_runProcessor hmode input draft registration).mono fun _ _ _ _ => trivial

theorem leads_process (input : Input) :
    Leads Reads (packer.process input) before fun draft after =>
      packer.Shows before.files (FoundAs after) input draft.text := by
  rcases List.eq_nil_or_concat' input.processors with hnil | ⟨registrations, registration, hlast⟩
  · have hprocess : packer.process input = packer.draftBehind input [] := by
      rw [process, draftBehind, hnil]
    rw [hprocess]
    refine (leads_draftBehind hmode input []).mono ?_
    intro draft after _ _ registrations registration hprocessors
    simp [hnil] at hprocessors
  · have hprocess : packer.process input = packer.draftBehind input registrations >>=
        fun draft => packer.runProcessor input draft registration := by
      simp [process, draftBehind, hlast, List.foldlM_append]
    rw [hprocess]
    apply (leads_draftBehind hmode input registrations).with_runs.bind
    rintro draft between hbetween ⟨hruns, -⟩
    refine (leads_runProcessor hmode input draft registration).mono ?_
    intro result after _ hresult registrations' registration' hprocessors hfind
    rw [hlast] at hprocessors
    obtain ⟨rfl, hsame⟩ := List.append_inj' hprocessors rfl
    obtain rfl := List.singleton_inj.mp hsame
    exact ⟨before, between, draft, rfl, hruns, hbetween.files ▸ hresult hfind⟩

/-! ## Assets -/

omit hmode in
/-- What stands between the inputs of an asset; nothing if no text is configured, with which
only an asset of one input can be built. -/
def separatorText : Setting → Text
  | .text separator => separator
  | _ => []

omit hmode in
theorem joined_cons (separator draft : Text) (drafts : List Text) :
    Text.joined separator (draft :: drafts) =
      draft ++ (if drafts = [] then [] else separator) ++ Text.joined separator drafts := by
  cases drafts with
  | nil => simp [Text.joined, List.intercalate]
  | cons next drafts => simp [Text.joined, List.intercalate]

omit hmode in
/-- What an asset is configured to have between its inputs. -/
def separatorOf (packer : Packer) (name : Text) : Setting :=
  (packer.separators.at? (extensionOf name)).getD standardSeparator

theorem leads_buildParts (separator : Setting) (output : Text) (inputs : List Input) :
    Leads Reads (packer.buildParts separator output inputs) before fun built after =>
      ∃ drafts, (built.map (·.1)).flatten = Text.joined (separatorText separator) drafts ∧
        List.Forall₂ (packer.Shows before.files (FoundAs after)) inputs drafts := by
  induction inputs generalizing before with
  | nil => exact Leads.of_pure ⟨[], rfl, .nil⟩
  | cons input rest ih =>
      unfold buildParts
      apply (leads_process hmode input).bind
      intro draft between hbetween hdraft
      extract_lets next
      have hnext {text : Text}
          (htext : text = draft.text ++ if rest = [] then [] else separatorText separator) :
          Leads Reads (next text) between fun built after =>
            ∃ drafts, (built.map (·.1)).flatten = Text.joined (separatorText separator) drafts ∧
              List.Forall₂ (packer.Shows before.files (FoundAs after)) (input :: rest) drafts := by
        unfold next
        apply leads_current.bind
        rintro current known hknown -
        apply Leads.lift_bind
        intro map _
        apply ih.bind
        rintro built after hafter ⟨drafts, hdrafts, hshows⟩
        refine Leads.of_pure ⟨draft.text :: drafts, ?_, .cons ?_ ?_⟩
        · have hnil : drafts = [] ↔ rest = [] := by
            rw [← List.length_eq_zero_iff, ← hshows.length_eq, List.length_eq_zero_iff]
          simp only [List.map_cons, List.flatten_cons, hdrafts, htext, joined_cons, hnil]
        · exact hdraft.imp fun _ _ => FoundAs.of_learns (hknown.learns.trans hafter.learns)
        · rwa [hknown.files, hbetween.files] at hshows
      split
      · rw [pure_bind]
        exact hnext (by simp)
      · rename_i hrest
        rw [pure_bind]
        exact hnext (by rw [if_neg hrest]; rfl)
      · exact Leads.of_throw _

theorem leads_build (name : Text) (inputs : List Input) (output : Text) :
    Leads Reads (packer.build name inputs output) before fun built after =>
      ∃ drafts, built.1 = Text.joined (separatorText (packer.separatorOf name)) drafts ∧
        List.Forall₂ (packer.Shows before.files (FoundAs after)) inputs drafts := by
  unfold build
  apply (leads_log _ _).bind
  intro _ between hbetween _
  apply (leads_buildParts hmode _ _ _).bind
  rintro built after hafter ⟨drafts, hdrafts, hshows⟩
  rw [hbetween.files] at hshows
  simp only
  split
  · apply Leads.lift_bind
    intro map _
    exact Leads.of_pure ⟨drafts, hdrafts, hshows⟩
  · exact Leads.of_pure ⟨drafts, hdrafts, hshows⟩

end Packer

end UrlRebase
