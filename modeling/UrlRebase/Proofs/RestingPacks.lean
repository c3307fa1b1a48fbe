import UrlRebase.Proofs.StandingAssets

/-!
# Packs that find nothing to do

A pack that finds no asset out of date forgets what was found out, adds to the log and does no
more: nothing is built, so no file is found to be copied either.  An asset with a directory for an
input cannot be built, and so it is not written either.  So a second pack behind one that came
through writes no file.
-/

namespace UrlRebase

open Work Workspace FileSystem

/-! ## Second packs -/

/-- Whether a workspace is another to which no file was written. -/
structure Workspace.WritesNone (before after : Workspace) : Prop where
  files : after.files.files = before.files.files
  written : after.written = before.written

instance : IsPreorder Workspace WritesNone where
  refl _ := ⟨rfl, rfl⟩
  trans _ _ _ h h' := ⟨h'.files.trans h.files, h'.written.trans h.written⟩

theorem Workspace.Logs.writesNone {before after : Workspace} (h : Logs before after) :
    WritesNone before after := by
  obtain ⟨log, rfl⟩ := h
  exact ⟨rfl, rfl⟩

theorem Workspace.Reads.writesNone {before after : Workspace} (h : Reads before after) :
    WritesNone before after :=
  ⟨congrArg _ h.files, h.written⟩

/-- What each step of a loop keeps, as long as it gives a value, the loop keeps. -/
theorem Work.Leads.forM_of_invariant
    {α : Type} {R : Workspace → Workspace → Prop} [IsPreorder Workspace R] {f : α → Work PUnit}
    {invariant : Workspace → Prop} {list : List α} {before : Workspace}
    (hbefore : invariant before)
    (h : ∀ a ∈ list, ∀ between, invariant between →
      Leads R (f a) between fun _ after => invariant after) :
    Leads R (list.forM f) before fun _ after => invariant after := by
  induction list generalizing before with
  | nil => exact of_pure hbefore
  | cons a rest ih =>
      exact (h a List.mem_cons_self before hbefore).bind fun _ between _ hbetween =>
        ih hbetween fun b hb => h b (List.mem_cons_of_mem a hb)

namespace Packer

variable {packer : Packer} {asset : Option Text} {force : Bool}

/-- Whether each asset that is asked for and out of date has a directory for an input. -/
def BuildsNone (packer : Packer) (asset : Option Text) (files : FileSystem)
    (entries : List (Setting × Setting)) : Prop :=
  ∀ entry ∈ entries, isAsked asset entry.1 = true → ∀ name path inputs,
    fileName entry.1 = .ok name → packer.outputPath files.current name = .ok path →
      packer.inputsOn files entry.2 = .ok inputs → IsOutdated false files path inputs →
        ∃ input ∈ inputs, files.isDirectory input.path = true

/-- An asset with a directory for an input cannot be built, and so nothing is written. -/
theorem leads_write_of_isDirectory
    {name path : Text} {inputs : List Input} {listed : Workspace}
    (h : ∃ input ∈ inputs, listed.files.isDirectory input.path = true) :
    Leads WritesNone (packer.write name inputs path) listed fun _ _ => False := by
  obtain ⟨input, hinput, hdirectory⟩ := h
  have hmake : Leads WritesNone (makeDirectories (Path.dirname path)) listed fun _ made =>
      made.files.isDirectory input.path = true :=
    Leads.of_modify ⟨rfl, rfl⟩ ((widens_makeDirectories _ _).isDirectory hdirectory)
  unfold write
  apply hmake.bind
  intro _ made _ hmade
  apply ((reads_build name inputs path).weaken (S := WritesNone) Reads.writesNone).bind
  intro built after _ hplain
  rw [hplain input hinput] at hmade
  cases hmade

theorem writesNone_of_pack
    {entries : List (Setting × Setting)} {now again : Workspace} {result : Except Failure Unit}
    (hentries : packer.entries = .ok entries) (hnone : packer.BuildsNone asset now.files entries)
    (hagain : Runs (packer.pack asset false) now result again) : WritesNone now again := by
  have hforgotten : WritesNone now (forgotten now) := ⟨rfl, rfl⟩
  have hturn (entry : Setting × Setting) (hentry : entry ∈ entries) (turn : Workspace)
      (hturn : Logs (forgotten now) turn) :
      Leads WritesNone (packer.takeTurn asset false entry) turn fun _ after =>
        Logs (forgotten now) after := by
    obtain ⟨log, rfl⟩ := hturn
    have hlogs {listed : Workspace} (hlog : Logs { forgotten now with log } listed) :
        Logs (forgotten now) listed := trans_of Logs ⟨log, rfl⟩ hlog
    refine leads_takeTurn_of_cases Logs.writesNone (fun _ _ => hlogs)
      (fun name path inputs listed hdue hlog => ?_) fun _ _ _ _ _ _ => hlogs
    have htold := ((tells_inputsOf entry.2).eq_of_runs hdue.listing).1
    have hdirectory := hnone entry hentry hdue.asked name path inputs hdue.named hdue.placed
      htold.symm hdue.outdated
    refine (leads_write_of_isDirectory ?_).mono fun _ _ _ h => h.elim
    obtain ⟨_, rfl⟩ := hlog
    exact hdirectory
  have hlater : Leads WritesNone (do
      (← Work.lift packer.entries).forM (packer.takeTurn asset false)
      packer.copyFound) (forgotten now) fun _ _ => True := by
    apply Leads.lift_bind
    intro listed hlisted
    obtain rfl := Except.ok.inj (hentries.symm.trans hlisted)
    apply (Leads.forM_of_invariant (refl _) hturn).bind
    rintro _ turned - ⟨log, rfl⟩
    -- Nothing was built, so no file was found that could be copied.
    exact leads_copyFound_of fun _ path hfound => nomatch hfound
  rw [pack_eq_turns] at hagain
  rcases runs_bind_cases hagain with ⟨_, start, hforget, hrest⟩ | ⟨error, -, hforget⟩
  · obtain ⟨-, rfl⟩ := Prod.mk.inj hforget
    exact trans_of WritesNone hforgotten (hlater _ _ hrest).1
  · cases (Prod.mk.inj hforget).1

/-- Whether something is true of all inputs that are found for the assets that are asked for. -/
def ForInputs (packer : Packer) (asset : Option Text) (files : FileSystem) (P : Input → Prop) :
    Prop :=
  ∀ entries, packer.entries = .ok entries → ∀ entry ∈ entries, isAsked asset entry.1 = true →
    ∀ inputs, packer.inputsOn files entry.2 = .ok inputs → ∀ input ∈ inputs, P input

instance (files : FileSystem) (P : Input → Prop) [DecidablePred P] :
    Decidable (packer.ForInputs asset files P) :=
  inferInstanceAs (Decidable (∀ entries, packer.entries = .ok entries → ∀ entry ∈ entries,
    isAsked asset entry.1 = true → ∀ inputs, packer.inputsOn files entry.2 = .ok inputs →
      ∀ input ∈ inputs, P input))

/-- A packer of two style sheets, the first of an input that depends on what a pattern finds. -/
def watching (pattern : Text) : Packer :=
  { ofNames [] with
    location := .text "src".text
    assets := .table none
      [(.text "a.css".text, .list none [.table none [(.text "x.css".text,
          .list none [.text pattern])]]),
        (.text "b/b.css".text, .text "c.css".text)] }

/-- The inputs of the two style sheets, a later file beside them, and the first style sheet. -/
def watchedSheets : FileSystem :=
  ((((FileSystem.empty "/p".text).place "/p/src/x.css".text ⟨.empty, 10, true⟩).place
    "/p/src/y.scss".text ⟨.empty, 100, true⟩).place "/p/src/c.css".text ⟨.empty, 10, true⟩).place
    "/p/src/a.css".text ⟨.empty, 50, true⟩

theorem isProper_of_forall {files : FileSystem}
    (h : ∀ path ∈ files.files.map Prod.fst, path ∉ files.directories) : files.IsProper := by
  intro path hfile
  rw [FileSystem.isFile, FileSystem.file?, isSome_lookup_iff] at hfile
  rw [FileSystem.isDirectory, ← Bool.not_eq_true, List.contains_iff_mem]
  exact h _ hfile

end Packer

end UrlRebase
