import UrlRebase.Proofs.DraftedInputs
import UrlRebase.Proofs.NamedSources

/-!
# Steady packing

What the inputs of an asset are, and what an asset is built to, is told by the files: by what
there is under the names of the inputs in the search directories, by the texts of the inputs,
and by the files that their references may lead to.
-/

namespace UrlRebase

open Work

namespace Work

variable {α : Type} {paths : Set Text} {files files' : FileSystem} {action : Work α}

/-- The outcome of a computation on files of which nothing is known yet. -/
def outcome (files : FileSystem) (action : Work α) : Except Failure α :=
  (action.run.run { files }).1

theorem Gives.outcome_eq {result : Except Failure α} (h : Gives paths files action result) :
    outcome files action = result := by
  have hruns : Runs action { files } (outcome files action) (action.run.run { files }).2 := rfl
  exact (h.eq_of_runs (Workspace.knows_of_files paths files) hruns).1

theorem Steady.gives (h : Steady paths files action) :
    Gives paths files action (outcome files action) := by
  obtain ⟨result, hgives⟩ := h
  rwa [hgives.outcome_eq]

/-- A steady computation has the same outcome on all files that show the same where it looks. -/
theorem Steady.outcome_of_sameAt
    (h : Steady paths files action) (hsame : files.SameAt paths files') :
    outcome files' action = outcome files action := by
  have hruns : Runs action { files := files' } (outcome files' action)
      (action.run.run { files := files' }).2 := rfl
  exact (h.gives.eq_of_runs (Workspace.knows_of_sameAt hsame) hruns).1

end Work

namespace Packer

variable {packer : Packer} {paths : Set Text} {files files' : FileSystem}

/-! ## Inputs -/

/-- Whether an input with a name is looked for at a path. -/
def Searches (packer : Packer) (current name path : Text) : Prop :=
  ∃ roots root text, packer.search.elements? = some roots ∧ root ∈ roots ∧
    root.toText = .ok text ∧ path = Path.join (packer.fromBase current text) name

def foundBelow (packer : Packer) (files : FileSystem) (name : Text) :
    List Setting → Except Failure (Option Text)
  | [] => .ok none
  | root :: rest => do
      let path := Path.join (packer.fromBase files.current (← root.toText)) name
      if files.exists? path then return some path else packer.foundBelow files name rest

def foundPath (packer : Packer) (files : FileSystem) (name : Text) :
    Except Failure (Option Text) :=
  match packer.search.elements? with
  | none => throw .wrongKind
  | some roots => packer.foundBelow files name roots

theorem gives_inputPath?
    {name : Text} (h : ∀ path, packer.Searches files.current name path → path ∈ paths) :
    Gives paths files (packer.inputPath? name) (packer.foundPath files name) := by
  unfold inputPath? foundPath
  cases hroots : packer.search.elements? with
  | none => exact Gives.of_throw _
  | some roots =>
      simp only
      have hbelow : ∀ rest ⊆ roots, Gives paths files (packer.findBelow name rest)
          (packer.foundBelow files name rest) := by
        intro rest hrest
        induction rest with
        | nil => exact Gives.of_pure _
        | cons root rest ih =>
            obtain ⟨hroot, hrest⟩ := List.cons_subset.mp hrest
            unfold findBelow foundBelow
            refine gives_current.bind_ok (Gives.lift_bind fun text htext => ?_)
            refine (gives_exists? (h _ ⟨roots, root, text, hroots, hroot, htext, rfl⟩)).bind_ok ?_
            simp only
            split
            · exact Gives.of_pure _
            · exact ih hrest
      exact hbelow roots (List.Subset.refl roots)

def elementsOf (list : Setting) : Except Failure (List Setting) :=
  match list with
  | .text _ => .ok [list]
  | list =>
      match list.elements? with
      | none => .error .wrongKind
      | some elements => .ok elements

/-- What is configured for an element of an asset's list: the name of the input, what it
depends on, and its processors. -/
structure InputPlan where
  name : Text
  depends : Setting
  processors : List Setting

def planOf (packer : Packer) (element : Setting) : Except Failure InputPlan := do
  let (spec, depends) ← inputParts element
  let fields := Text.fields ':' spec
  let name := fields.getLast?.getD []
  let names ← packer.processorNames fields.dropLast name
  names.forM packer.checkProcessor
  return { name
           depends := if depends.truthy then depends else .list none []
           processors := names.map packer.registration }

def InputPlan.at? (plan : InputPlan) : Option Text → Option Input
  | some (c :: path) =>
      some { name := plan.name, path := c :: path, processors := plan.processors
             depends := plan.depends }
  | _ => none

def inputOn (packer : Packer) (files : FileSystem) (element : Setting) :
    Except Failure (Option Input) := do
  let plan ← packer.planOf element
  return plan.at? (← packer.foundPath files plan.name)

def inputsOn (packer : Packer) (files : FileSystem) (list : Setting) :
    Except Failure (List Input) := do
  return (← (← elementsOf list).mapM (packer.inputOn files)).filterMap id

/-- Whether an asset's list names an input that is looked for at a path. -/
def SearchesFor (packer : Packer) (current : Text) (list : Setting) (path : Text) : Prop :=
  ∃ elements element plan, elementsOf list = .ok elements ∧ element ∈ elements ∧
    packer.planOf element = .ok plan ∧ packer.Searches current plan.name path

theorem gives_inputOf
    {element : Setting}
    (h : ∀ plan, packer.planOf element = .ok plan →
      ∀ path, packer.Searches files.current plan.name path → path ∈ paths) :
    Gives paths files (packer.inputOf element) (packer.inputOn files element) := by
  unfold inputOf inputOn planOf
  simp only [bind_assoc, pure_bind]
  refine Gives.lift_bind fun ⟨spec, depends⟩ hparts => ?_
  refine Gives.lift_bind fun names hnames => ?_
  refine Gives.lift_bind fun _ hchecked => ?_
  have hplan : packer.planOf element = .ok _ :=
    Except.bind_eq_ok.mpr ⟨(spec, depends), hparts, Except.bind_eq_ok.mpr ⟨names, hnames,
      Except.bind_eq_ok.mpr ⟨⟨⟩, hchecked, rfl⟩⟩⟩
  refine (gives_inputPath? (h _ hplan)).bind fun found _ => ?_
  rcases found with _ | _ | ⟨c, path⟩
  · exact (gives_log _ _).bind_ok (Gives.of_pure _)
  · exact (gives_log _ _).bind_ok (Gives.of_pure _)
  · exact Gives.of_pure _

theorem inputsOf_eq (list : Setting) :
    packer.inputsOf list = Work.lift (elementsOf list) >>= fun elements => do
      return (← elements.mapM packer.inputOf).filterMap id := by
  cases list <;> rfl

theorem gives_inputsOf
    {list : Setting} (h : ∀ path, packer.SearchesFor files.current list path → path ∈ paths) :
    Gives paths files (packer.inputsOf list) (packer.inputsOn files list) := by
  rw [inputsOf_eq]
  refine Gives.lift_bind fun elements helements => ?_
  refine (Gives.mapM fun element helement => gives_inputOf fun plan hplan path hpath =>
    h path ⟨elements, element, plan, helements, helement, hplan, hpath⟩).bind fun inputs _ => ?_
  exact Gives.of_pure _

/-! ## Texts -/

def sheetOf (input : Input) (text : Text) : StyleSheet :=
  { text, path := input.path }

/-- Whether a reference of an input may lead to a path, among some files. -/
def Refers (packer : Packer) (files : FileSystem) (input : Input) (path : Text) : Prop :=
  ∃ text, files.textOf input.path = .ok text ∧
    ∃ token ∈ Token.scan (packer.rebaser.scannedText (sheetOf input text)),
      packer.rebaser.LooksAt files.current (sheetOf input text)
        ⟨none, (sheetOf input text).sourceName⟩ token path

/-- Whether some inputs are among some paths with all that their references may lead to. -/
def DrawsWithin (packer : Packer) (paths : Set Text) (files : FileSystem)
    (inputs : List Input) : Prop :=
  ∀ input ∈ inputs, input.path ∈ paths ∧ ∀ path, packer.Reaches files input path → path ∈ paths

theorem DrawsWithin.mono
    {inputs : List Input} (h : packer.DrawsWithin paths files inputs) {paths' : Set Text}
    (hpaths : paths ⊆ paths') : packer.DrawsWithin paths' files inputs := by
  intro input hinput
  obtain ⟨hpath, hreaches⟩ := h input hinput
  exact ⟨hpaths hpath, fun path hpath => hpaths (hreaches path hpath)⟩

theorem refers_of_reaches
    {input : Input} {path : Text} (honly : packer.IsOnlyRebased input)
    (h : packer.Reaches files input path) : packer.Refers files input path := by
  obtain ⟨registration, hprocessors, hfind⟩ := honly
  obtain ⟨met, ⟨text, htext, hmet⟩, map, remarks, hread, token, htoken, hlooks⟩ := h
  rw [hprocessors] at hmet
  cases hmet with
  | here =>
      obtain rfl : map = none := (Prod.mk.inj (Except.ok.inj hread)).1.symm
      exact ⟨text, htext, token, htoken, hlooks⟩
  | later _ hmet => cases hmet

/-- A text with what stands between it and the next inputs. -/
def separated (separator : Setting) (rest : List Input) (text : Text) : Except Failure Text :=
  match rest, separator with
  | [], _ => .ok text
  | _, .text separator => .ok (text ++ separator)
  | _, _ => .error .wrongKind

def partsOn (packer : Packer) (files : FileSystem) (separator : Setting) (output : Text) :
    List Input → Except Failure (List (Text × SourceMap.Part))
  | [] => return []
  | input :: rest => do
      let draft ← packer.draftOn files input
      let text ← separated separator rest draft.text
      let map ← mapBeside files.current input.path output draft.map
      let part : SourceMap.Part := ⟨text.count (.char '\n'), map⟩
      return (text, part) :: (← packer.partsOn files separator output rest)

def buildOn (packer : Packer) (files : FileSystem) (name : Text) (inputs : List Input)
    (output : Text) : Except Failure (Text × Option SourceMap) := do
  let separator := (packer.separators.at? (extensionOf name)).getD standardSeparator
  let built ← packer.partsOn files separator output inputs
  let text := (built.map (·.1)).flatten
  let parts := built.map (·.2)
  if packer.options.sourceMap && parts.any (·.map.isSome) then
    let map ← (SourceMap.concat (.string (Path.basename name)) parts).mapError .mapUse
    return (text, some map)
  else return (text, none)

theorem gives_buildParts
    {separator : Setting} {output : Text} {inputs : List Input}
    (hinputs : packer.DrawsWithin paths files inputs) :
    Gives paths files (packer.buildParts separator output inputs)
      (packer.partsOn files separator output inputs) := by
  induction inputs with
  | nil => exact Gives.of_pure _
  | cons input rest ih =>
      obtain ⟨⟨hpath, hreaches⟩, hrest⟩ := List.forall_mem_cons.mp hinputs
      unfold buildParts partsOn
      refine (gives_process hpath hreaches).bind fun draft _ => ?_
      extract_lets next
      have hnext (text : Text) : Gives paths files (next text) (do
          let map ← mapBeside files.current input.path output draft.map
          return (text, ⟨text.count (.char '\n'), map⟩) ::
            (← packer.partsOn files separator output rest)) := by
        refine gives_current.bind_ok (Gives.lift_bind fun map _ => ?_)
        exact (ih hrest).bind fun others _ => Gives.of_pure _
      cases rest with
      | nil => exact (Gives.of_pure _).bind_ok (hnext _)
      | cons other others =>
          cases separator with
          | text separator => exact (Gives.of_pure _).bind_ok (hnext _)
          | _ => exact (Gives.of_throw _).bind_error

/-- What an asset is built to does not depend on more than its inputs and the files that
their references may lead to. -/
theorem gives_build
    {name output : Text} {inputs : List Input} (hinputs : packer.DrawsWithin paths files inputs) :
    Gives paths files (packer.build name inputs output)
      (packer.buildOn files name inputs output) := by
  unfold build buildOn
  refine (gives_log _ _).bind_ok ((gives_buildParts hinputs).bind fun built _ => ?_)
  simp only
  split
  · exact Gives.lift_bind fun map _ => Gives.of_pure _
  · exact Gives.of_pure _

theorem textOf_of_partsOn
    {separator : Setting} {output : Text} {inputs : List Input}
    {built : List (Text × SourceMap.Part)}
    (h : packer.partsOn files separator output inputs = .ok built) :
    ∀ input ∈ inputs, ∃ text, files.textOf input.path = .ok text := by
  induction inputs generalizing built with
  | nil => simp
  | cons input rest ih =>
      obtain ⟨draft, hdraft, h⟩ := Except.bind_eq_ok.mp h
      obtain ⟨text, htext, -⟩ := Except.bind_eq_ok.mp hdraft
      obtain ⟨_, -, h⟩ := Except.bind_eq_ok.mp h
      obtain ⟨_, -, h⟩ := Except.bind_eq_ok.mp h
      obtain ⟨others, hothers, -⟩ := Except.bind_eq_ok.mp h
      exact List.forall_mem_cons.mpr ⟨⟨text, htext⟩, ih hothers⟩

theorem textOf_of_build
    {name output : Text} {inputs : List Input} {made : Text × Option SourceMap}
    (hinputs : packer.DrawsWithin paths files inputs)
    (h : outcome files (packer.build name inputs output) = .ok made) :
    ∀ input ∈ inputs, ∃ text, files.textOf input.path = .ok text := by
  rw [(gives_build hinputs).outcome_eq] at h
  obtain ⟨built, hbuilt, -⟩ := Except.bind_eq_ok.mp h
  exact textOf_of_partsOn hbuilt

end Packer

end UrlRebase
