import UrlRebase.Proofs.MadeDirectories
import UrlRebase.Proofs.StoredFiles

/-!
# Inputs that the files tell

Which inputs an asset has is told by the files alone, whatever was found out before, and the
only trace of asking is in the log.  Files that are added can hide that a search directory
cannot be told, since the directories behind the one where an input is found do not count.
-/

namespace UrlRebase

open Work Workspace

namespace Work

variable {α β : Type}

/-- Whether a computation gives on every workspace what the files tell, and does nothing but add
to the log. -/
def Tells (action : Work α) (told : FileSystem → Except Failure α) : Prop :=
  ∀ before : Workspace, ∃ log, Runs action before (told before.files) { before with log }

namespace Tells

variable {action : Work α} {told : FileSystem → Except Failure α}

theorem of_lift (result : Except Failure α) : Tells (lift result) fun _ => result :=
  fun before => ⟨before.log, Runs.of_lift result before⟩

theorem of_pure (a : α) : Tells (pure a) fun _ => .ok a :=
  of_lift (.ok a)

theorem of_throw (error : Failure) : Tells (throw error : Work α) fun _ => .error error :=
  of_lift (.error error)

theorem bind
    {next : α → Work β} {told' : α → FileSystem → Except Failure β} (h : Tells action told)
    (hnext : ∀ a, Tells (next a) (told' a)) :
    Tells (action >>= next) fun files => told files >>= fun a => told' a files := by
  intro before
  obtain ⟨log, hruns⟩ := h before
  beta_reduce
  cases htold : told before.files with
  | error error =>
      rw [htold] at hruns
      exact ⟨log, hruns.bind_error⟩
  | ok a =>
      rw [htold] at hruns
      obtain ⟨log', hruns'⟩ := hnext a { before with log }
      exact ⟨log', hruns.bind hruns'⟩

theorem mapM
    {f : α → Work β} {told : α → FileSystem → Except Failure β} (h : ∀ a, Tells (f a) (told a))
    (list : List α) : Tells (list.mapM f) fun files => list.mapM (told · files) := by
  induction list with
  | nil => exact of_pure []
  | cons a rest ih =>
      simp only [List.mapM_cons]
      exact (h a).bind fun b => ih.bind fun others => of_pure _

theorem eq_of_runs
    {result : Except Failure α} {before after : Workspace} (h : Tells action told)
    (hruns : Runs action before result after) :
    result = told before.files ∧ ∃ log, after = { before with log } := by
  obtain ⟨log, hruns'⟩ := h before
  obtain ⟨rfl, rfl⟩ := Prod.mk.inj (hruns.symm.trans hruns')
  exact ⟨rfl, log, rfl⟩

end Tells

theorem tells_current : Tells current fun files => .ok files.current :=
  fun before => ⟨before.log, rfl⟩

theorem tells_exists? (path : Text) : Tells (exists? path) fun files => .ok (files.exists? path) :=
  fun before => ⟨before.log, rfl⟩

theorem tells_log (level : LogLevel) (message : Text) : Tells (log level message) fun _ => .ok ⟨⟩ :=
  fun before => ⟨before.log ++ [LogEntry.mk level message], Runs.of_modify _ before⟩

end Work

namespace Packer

variable {packer : Packer}

/-! ## The inputs of an asset -/

theorem tells_findBelow (name : Text) (roots : List Setting) :
    Tells (packer.findBelow name roots) (packer.foundBelow · name roots) := by
  induction roots with
  | nil => exact Tells.of_pure none
  | cons root rest ih =>
      unfold findBelow
      refine @Tells.bind _ _ _ _ _ (fun current files => do
        let text ← root.toText
        let there ← Except.ok (files.exists? (Path.join (packer.fromBase current text) name))
        if there then return some (Path.join (packer.fromBase current text) name)
        else packer.foundBelow files name rest) tells_current fun current => ?_
      refine (Tells.of_lift root.toText).bind fun text => (tells_exists? _).bind fun there => ?_
      cases there with
      | true => exact Tells.of_pure _
      | false => exact ih

theorem tells_inputPath? (name : Text) :
    Tells (packer.inputPath? name) (packer.foundPath · name) := by
  unfold inputPath? foundPath
  cases packer.search.elements? with
  | none => exact Tells.of_throw _
  | some roots => exact tells_findBelow name roots

theorem tells_inputOf (element : Setting) :
    Tells (packer.inputOf element) (packer.inputOn · element) := by
  unfold inputOf inputOn planOf
  simp only [bind_assoc, pure_bind]
  refine (Tells.of_lift _).bind fun ⟨spec, depends⟩ => ?_
  refine (Tells.of_lift _).bind fun names => (Tells.of_lift _).bind fun _ => ?_
  refine (tells_inputPath? _).bind fun found => ?_
  rcases found with _ | _ | ⟨c, path⟩
  · exact (tells_log _ _).bind fun _ => Tells.of_pure _
  · exact (tells_log _ _).bind fun _ => Tells.of_pure _
  · exact Tells.of_pure _

theorem tells_inputsOf (list : Setting) :
    Tells (packer.inputsOf list) (packer.inputsOn · list) := by
  rw [inputsOf_eq]
  unfold inputsOn
  refine (Tells.of_lift _).bind fun elements => ?_
  exact (Tells.mapM tells_inputOf elements).bind fun inputs => Tells.of_pure _

/-! ## Inputs on other files -/

/-- Whether every search directory can be told as a text. -/
def TellsSearch (packer : Packer) : Prop :=
  ∀ roots, packer.search.elements? = some roots → ∀ root ∈ roots, ∃ text, root.toText = .ok text

section Others

variable {files files' : FileSystem}

theorem exists_foundBelow_of_grows
    {name : Text} {roots : List Setting} {found : Option Text} (hgrows : files.Grows files')
    (h : packer.foundBelow files name roots = .ok found) :
    ∃ found', packer.foundBelow files' name roots = .ok found' := by
  induction roots with
  | nil => exact ⟨none, rfl⟩
  | cons root rest ih =>
      obtain ⟨text, htext, h⟩ := Except.bind_eq_ok.mp h
      unfold foundBelow
      rw [htext, hgrows.current]
      -- Where there is more, the search can only end earlier.
      simp only [bind, Except.bind] at h ⊢
      split
      · exact ⟨_, rfl⟩
      · rename_i hmissing
        rw [if_neg fun hthere => hmissing (hgrows.present _ hthere)] at h
        exact ih h

theorem exists_foundBelow_of_told
    {roots : List Setting} (htold : ∀ root ∈ roots, ∃ text, root.toText = .ok text)
    (files : FileSystem) (name : Text) :
    ∃ found, packer.foundBelow files name roots = .ok found := by
  induction roots with
  | nil => exact ⟨none, rfl⟩
  | cons root rest ih =>
      obtain ⟨⟨text, htext⟩, hrest⟩ := List.forall_mem_cons.mp htold
      unfold foundBelow
      rw [htext]
      simp only [bind, Except.bind]
      split
      · exact ⟨_, rfl⟩
      · exact ih hrest

theorem exists_inputsOn_of_found
    {list : Setting} {inputs : List Input}
    (hbelow : ∀ roots, packer.search.elements? = some roots → ∀ name found,
      packer.foundBelow files name roots = .ok found →
        ∃ found', packer.foundBelow files' name roots = .ok found')
    (h : packer.inputsOn files list = .ok inputs) :
    ∃ inputs', packer.inputsOn files' list = .ok inputs' := by
  have hfound (name : Text) (found : Option Text)
      (h : packer.foundPath files name = .ok found) :
      ∃ found', packer.foundPath files' name = .ok found' := by
    unfold foundPath at h ⊢
    cases hroots : packer.search.elements? with
    | none =>
        rw [hroots] at h
        cases h
    | some roots =>
        rw [hroots] at h
        exact hbelow roots hroots name found h
  obtain ⟨elements, helements, h⟩ := Except.bind_eq_ok.mp h
  obtain ⟨found, hmapped, -⟩ := Except.bind_eq_ok.mp h
  have hall (element : Setting) (helement : element ∈ elements) :
      ∃ input?, packer.inputOn files' element = .ok input? ∧ True := by
    obtain ⟨input?, -, hinput⟩ :=
      Forall₂.exists_of_mem_left (Except.mapM_eq_ok_iff.mp hmapped) helement
    obtain ⟨plan, hplan, hinput⟩ := Except.bind_eq_ok.mp hinput
    obtain ⟨path?, hpath, -⟩ := Except.bind_eq_ok.mp hinput
    obtain ⟨path', hpath'⟩ := hfound plan.name path? hpath
    exact ⟨_, Except.bind_eq_ok.mpr ⟨plan, hplan, Except.bind_eq_ok.mpr ⟨path', hpath', rfl⟩⟩,
      trivial⟩
  obtain ⟨found', hfound', -⟩ := Except.exists_mapM hall
  exact ⟨_, Except.bind_eq_ok.mpr ⟨elements, helements,
    Except.bind_eq_ok.mpr ⟨found', hfound', rfl⟩⟩⟩

/-- If the inputs of an asset can be told, then they can be told where there is more. -/
theorem exists_inputsOn_of_grows
    {list : Setting} {inputs : List Input} (hgrows : files.Grows files')
    (h : packer.inputsOn files list = .ok inputs) :
    ∃ inputs', packer.inputsOn files' list = .ok inputs' :=
  exists_inputsOn_of_found
    (fun _ _ _ _ hfound => exists_foundBelow_of_grows hgrows hfound) h

/-- If every search directory can be told, then it does not depend on the files whether the
inputs of an asset can be. -/
theorem exists_inputsOn_of_told
    {list : Setting} {inputs : List Input} (htold : packer.TellsSearch)
    (h : packer.inputsOn files list = .ok inputs) (files' : FileSystem) :
    ∃ inputs', packer.inputsOn files' list = .ok inputs' :=
  exists_inputsOn_of_found
    (fun roots hroots name _ _ => exists_foundBelow_of_told (htold roots hroots) files' name) h

end Others

end Packer

end UrlRebase
