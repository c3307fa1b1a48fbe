import UrlRebase.Proofs.SteadyRuns
import UrlRebase.Pack.Build

/-!
# Drafts of inputs

What becomes of an input on its way through its processors is told by the text of the input
and by the files that its references may lead to, at whichever steps they are rebased.
-/

namespace UrlRebase

open Work

/-- The text of a file, with every line break a newline. -/
def FileSystem.textOf (files : FileSystem) (path : Text) : Except Failure Text := do
  match Utf8.decode? (← (files.read path).mapError .file) with
  | none => throw .undecodable
  | some text => return text.unifyBreaks

theorem Work.gives_readText
    {paths : Set Text} {files : FileSystem} {path : Text} (hpath : path ∈ paths) :
    Gives paths files (readText path) (files.textOf path) := by
  unfold readText FileSystem.textOf
  refine (gives_read hpath).bind fun bytes _ => ?_
  cases Utf8.decode? bytes with
  | none => exact Gives.of_throw _
  | some text => exact Gives.of_pure _

def Draft.sheet (input : Input) (draft : Draft) : StyleSheet :=
  { text := draft.text, path := input.path, map := draft.map }

/-- Whether a reference of a draft may lead to a path. -/
def Draft.LeadsTo (packer : Packer) (current : Text) (input : Input) (draft : Draft)
    (path : Text) : Prop :=
  ∃ map remarks, Rebaser.readMap (draft.sheet input) = .ok (map, remarks) ∧
    ∃ token ∈ Token.scan (packer.rebaser.scannedText (draft.sheet input)),
      packer.rebaser.LooksAt current (draft.sheet input) ⟨map, (draft.sheet input).sourceName⟩
        token path

namespace Packer

variable {packer : Packer} {paths : Set Text} {files : FileSystem} {input : Input}

/-- The URL of a file among some files that is named after its content. -/
def urlIn (packer : Packer) (files : FileSystem) (path : Text) : Except Failure Text := do
  let name ← files.contentName path
  match packer.urlBase with
  | .text base => (Url.join base name).mapError .url
  | base => if base.truthy then throw .wrongKind else return name

theorem namesAs_urlIn : packer.rebaser.NamesAs (packer.urlIn files) paths files := by
  intro _ path hpath
  refine (gives_digestName hpath).bind fun name _ => ?_
  cases packer.urlBase with
  | text base => exact Gives.of_lift _
  | _ =>
      simp only
      split
      · exact Gives.of_throw _
      · exact Gives.of_pure _

/-! ## One processor -/

def compilationOf (input : Input) : FileCompilation where
  path := input.path
  mapName := (Path.splitExtension input.path).1 ++ ".css.map".text
  outputName := (Path.splitExtension input.path).1 ++ ".css".text
  includes := [Path.dirname input.path]

/-- Whether a draft is compiled from the file of its input. -/
def compilesFile (packer : Packer) (files : FileSystem) (input : Input) (draft : Draft) :
    Except Failure Bool :=
  if packer.options.sourceMap && draft.map.isNone then
    (files.textOf input.path).map (draft.text == ·)
  else .ok false

/-- What a draft is compiled to among some files. -/
def compiledOn (packer : Packer) (files : FileSystem) (input : Input) (draft : Draft) :
    Except Failure Draft := do
  if ← packer.compilesFile files input draft then
    match packer.tools.compileFile (compilationOf input) with
    | none => throw .compile
    | some compiled => return { text := compiled.text, map := compiled.map }
  else
    return {
      text := packer.tools.compileText [Path.dirname input.path]
        (".sass".text.isSuffixOf input.path) draft.text }

/-- What a processor makes of a draft among some files. -/
def draftBy (packer : Packer) (files : FileSystem) (input : Input) (draft : Draft)
    (registration : Setting) : Except Failure Draft := do
  match ← Processor.find packer.tools registration with
  | .minify => return { text := packer.tools.minify draft.text }
  | .rebase =>
      let rebased ← packer.rebaser.runAs (packer.urlIn files) files (draft.sheet input)
      return { text := rebased.text, map := rebased.map.map .map }
  | .compile => packer.compiledOn files input draft
  | .external run => return { text := ← run input.name draft.text draft.map }

/-- What a draft is compiled to, given whether it is compiled from its file. -/
def compiledWhen (packer : Packer) (input : Input) (draft : Draft) (untouched : Bool) :
    Except Failure Draft :=
  if untouched then
    match packer.tools.compileFile (compilationOf input) with
    | none => throw .compile
    | some compiled => return { text := compiled.text, map := compiled.map }
  else
    return {
      text := packer.tools.compileText [Path.dirname input.path]
        (".sass".text.isSuffixOf input.path) draft.text }

theorem compiledOn_eq (input : Input) (draft : Draft) :
    packer.compiledOn files input draft =
      packer.compilesFile files input draft >>= packer.compiledWhen input draft :=
  rfl

theorem gives_compile (hpath : input.path ∈ paths) (draft : Draft) :
    Gives paths files (packer.compile input draft) (packer.compiledOn files input draft) := by
  rw [compiledOn_eq]
  unfold compile compilesFile
  extract_lets includes stem compilation indented finish next
  have hnext (untouched : Bool) :
      Gives paths files (next untouched) (packer.compiledWhen input draft untouched) := by
    unfold next compiledWhen
    cases untouched with
    | true =>
        refine (gives_log _ _).bind_ok ?_
        rw [if_pos rfl, show compilation = compilationOf input from rfl]
        cases packer.tools.compileFile (compilationOf input) with
        | none => exact Gives.of_throw _
        | some compiled => exact Gives.of_pure _
    | false =>
        simp only [Bool.false_eq_true, if_false]
        split
        · exact (gives_log _ _).bind_ok (Gives.of_pure _)
        · exact Gives.of_pure _
  split
  · have hmap : (files.textOf input.path).map (draft.text == ·) =
        files.textOf input.path >>= fun text => .ok (draft.text == text) := by
      cases files.textOf input.path <;> rfl
    rw [hmap, bind_assoc]
    refine (gives_readText hpath).bind fun text _ => ?_
    rw [pure_bind]
    exact hnext _
  · rw [pure_bind]
    exact hnext false

theorem gives_rebaseDraft
    {draft : Draft} (hleads : ∀ path, draft.LeadsTo packer files.current input path → path ∈ paths) :
    Gives paths files (packer.rebaseDraft input draft) (do
      let rebased ← packer.rebaser.runAs (packer.urlIn files) files (draft.sheet input)
      return { text := rebased.text, map := rebased.map.map .map }) := by
  unfold rebaseDraft
  have hrun : Gives paths files (packer.rebaser.run (draft.sheet input))
      (packer.rebaser.runAs (packer.urlIn files) files (draft.sheet input)) :=
    Rebaser.gives_run namesAs_urlIn fun map remarks hread token htoken path hlooks =>
      hleads path ⟨map, remarks, hread, token, htoken, hlooks⟩
  refine hrun.bind fun rebased _ => ?_
  have hnote : Gives paths files (modify fun workspace =>
      { workspace with assets := (workspace.assets ++ rebased.assets).eraseDups } : Work PUnit)
      (.ok ⟨⟩) :=
    Gives.of_modify fun _ hbefore => ⟨hbefore.congr rfl rfl rfl, rfl⟩
  exact hnote.bind_ok (Gives.of_pure _)

theorem gives_runProcessor
    {draft : Draft} {registration : Setting} (hpath : input.path ∈ paths)
    (hleads : Processor.find packer.tools registration = .ok .rebase →
      ∀ path, draft.LeadsTo packer files.current input path → path ∈ paths) :
    Gives paths files (packer.runProcessor input draft registration)
      (packer.draftBy files input draft registration) := by
  unfold runProcessor draftBy
  refine Gives.lift_bind fun processor hfind => ?_
  cases processor with
  | minify =>
      simp only [minify]
      split
      · exact (gives_log _ _).bind_ok (Gives.of_pure _)
      · exact Gives.of_pure _
  | rebase => exact gives_rebaseDraft (hleads hfind)
  | compile => exact gives_compile hpath draft
  | external run => exact Gives.lift_bind fun text _ => Gives.of_pure _

/-! ## All processors -/

/-- What becomes of an input among some files. -/
def draftOn (packer : Packer) (files : FileSystem) (input : Input) : Except Failure Draft := do
  let text ← files.textOf input.path
  input.processors.foldlM (packer.draftBy files input) { text }

/-- Whether a draft is what comes to be rebased on the way of another through processors. -/
inductive IsMet (packer : Packer) (files : FileSystem) (input : Input) (met : Draft) :
    Draft → List Setting → Prop
  | here {registration : Setting} {rest : List Setting}
      (hfind : Processor.find packer.tools registration = .ok .rebase) :
      IsMet packer files input met met (registration :: rest)
  | later {draft next : Draft} {registration : Setting} {rest : List Setting}
      (hnext : packer.draftBy files input draft registration = .ok next)
      (hmet : IsMet packer files input met next rest) :
      IsMet packer files input met draft (registration :: rest)

/-- Whether a draft comes to be rebased on the way of an input through its processors. -/
def Meets (packer : Packer) (files : FileSystem) (input : Input) (met : Draft) : Prop :=
  ∃ text, files.textOf input.path = .ok text ∧
    packer.IsMet files input met { text } input.processors

/-- Whether a reference of an input may lead to a path when it comes to be rebased. -/
def Reaches (packer : Packer) (files : FileSystem) (input : Input) (path : Text) : Prop :=
  ∃ met, packer.Meets files input met ∧ met.LeadsTo packer files.current input path

theorem gives_foldlM
    {draft : Draft} {registrations : List Setting} (hpath : input.path ∈ paths)
    (hleads : ∀ met, packer.IsMet files input met draft registrations →
      ∀ path, met.LeadsTo packer files.current input path → path ∈ paths) :
    Gives paths files (registrations.foldlM (packer.runProcessor input) draft)
      (registrations.foldlM (packer.draftBy files input) draft) := by
  induction registrations generalizing draft with
  | nil => exact Gives.of_pure draft
  | cons registration rest ih =>
      rw [List.foldlM_cons, List.foldlM_cons]
      refine (gives_runProcessor hpath fun hfind => hleads draft (.here hfind)).bind
        fun next hnext => ?_
      exact ih fun met hmet => hleads met (.later hnext hmet)

theorem gives_process
    (hpath : input.path ∈ paths) (hreaches : ∀ path, packer.Reaches files input path → path ∈ paths) :
    Gives paths files (packer.process input) (packer.draftOn files input) := by
  unfold process draftOn
  refine (gives_readText hpath).bind fun text htext => ?_
  exact gives_foldlM hpath fun met hmet path hleads =>
    hreaches path ⟨met, ⟨text, htext, hmet⟩, hleads⟩

end Packer

end UrlRebase
