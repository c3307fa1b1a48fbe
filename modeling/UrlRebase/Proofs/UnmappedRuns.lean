import UrlRebase.Proofs.SteadyPacking

/-!
# Runs without maps

A map does nothing to a text but tell where its references were written.  So without maps the
same texts come out, as long as each reference leads to the same file from the directory of the
style sheet that it stands in as from the directory of the file where it was written.
-/

namespace UrlRebase

/-! ## Rebasing -/

/-- A path has candidates from everywhere if it has some from anywhere. -/
theorem SearchPath.exists_answer
    {searchPath : SearchPath} {files : FileSystem} {directory : Text} {payload : Payload}
    {resolution : Resolution} (h : searchPath.answer files directory payload = .ok resolution)
    (directory' : Text) : ∃ resolution', searchPath.answer files directory' payload =
      .ok resolution' := by
  unfold answer at h ⊢
  split at h
  · rename_i hnames
    exact ⟨_, if_pos hnames⟩
  · rename_i hnames
    rw [if_neg hnames]
    by_cases hroot : LacksRoot searchPath.root payload.path
    · rw [outcome, candidates_of_lacksRoot hroot] at h
      cases h
    · obtain ⟨candidates, hcandidates, -⟩ :=
        candidates_of_not_lacksRoot hroot files.current directory'
      exact ⟨_, by rw [outcome, hcandidates]; rfl⟩

namespace Rebaser

variable {rebaser : Rebaser} {named : Text → Except Failure Text} {files : FileSystem}
  {sheet : StyleSheet} {origin origin' : Origin} {token : Token}
  {resolution resolution' : Resolution} {outcome : RebasedToken}

def withoutMaps (rebaser : Rebaser) : Rebaser :=
  { rebaser with options := { rebaser.options with sourceMap := false } }

/-- What a token becomes does not depend on more of where it leads than the file. -/
theorem exists_settled_of_path?_eq
    {mode : Mode} {keepQuery : Bool} (hpath : resolution'.path? = resolution.path?)
    (h : settled origin token resolution (token.rebase named mode keepQuery resolution) =
      .ok outcome) (origin' : Origin) :
    ∃ outcome', settled origin' token resolution'
        (token.rebase named mode keepQuery resolution') = .ok outcome' ∧
      outcome'.text = outcome.text := by
  cases resolution with
  | found path candidates shadowed =>
      cases resolution' with
      | found path' candidates' shadowed' =>
          obtain rfl := Option.some.inj hpath
          have hspelled : token.rebase named mode keepQuery (.found path' candidates' shadowed') =
              token.rebase named mode keepQuery (.found path' candidates shadowed) := by
            cases mode <;> rfl
          rw [hspelled]
          cases hresult : token.rebase named mode keepQuery (.found path' candidates shadowed) with
          | ok text =>
              rw [hresult] at h
              obtain rfl := Except.ok.inj h
              exact ⟨_, rfl, rfl⟩
          | error error =>
              rw [hresult] at h
              cases error with
              | file error =>
                  obtain rfl := Except.ok.inj h
                  exact ⟨_, rfl, rfl⟩
              | _ => cases h
      | _ => cases hpath
  | _ =>
      obtain rfl := Except.ok.inj h
      cases resolution' with
      | found => cases hpath
      | _ => exact ⟨_, rfl, rfl⟩

theorem exists_settled_of_keep
    (origin : Origin) (token : Token) (resolution : Resolution) (keepQuery : Bool) :
    ∃ outcome, settled origin token resolution
        (token.rebase named .keep keepQuery resolution) = .ok outcome ∧
      outcome.text = token.raw := by
  cases resolution <;> exact ⟨_, rfl, rfl⟩

/-- Whether a token leads to the same file from the style sheet's own directory as from where
a map of the style sheet says that it was written.  Where no token is resolved or all are kept,
it does not matter. -/
def LeadsAlike (rebaser : Rebaser) (files : FileSystem) (sheet : StyleSheet) (map : SourceMap)
    (token : Token) : Prop :=
  rebaser.options.attemptResolve = true → rebaser.options.mode ≠ .keep →
    ∀ origin resolution,
      Lineage.origin ⟨some map, sheet.sourceName⟩ ⟨token.place.line, token.place.column⟩ =
        .ok origin →
      rebaser.leadsTo files sheet ⟨some map, sheet.sourceName⟩ origin token = .ok resolution →
      (rebaser.searchPath.answer files (sheet.directory files.current) token.payload).map
        Resolution.path? = .ok resolution.path?

/-- Whether all tokens of a style sheet do. -/
def AllLeadAlike (rebaser : Rebaser) (files : FileSystem) (sheet : StyleSheet) : Prop :=
  ∀ map remarks, readMap sheet = .ok (some map, remarks) →
    ∀ token ∈ Token.scan (rebaser.scannedText sheet), rebaser.LeadsAlike files sheet map token

/-- Where a token leads from the style sheet's own directory, it is settled to the same text. -/
theorem exists_settled_withoutMaps
    {map : Option SourceMap}
    (halike : ∀ known, map = some known → rebaser.LeadsAlike files sheet known token)
    (hattempt : rebaser.options.attemptResolve = true)
    (horigin : Lineage.origin ⟨map, sheet.sourceName⟩ ⟨token.place.line, token.place.column⟩ =
      .ok origin)
    (hleads : rebaser.leadsTo files sheet ⟨map, sheet.sourceName⟩ origin token = .ok resolution)
    (houtcome : settled origin token resolution (token.rebase named rebaser.options.mode
      rebaser.options.keepQuery resolution) = .ok outcome) (origin' : Origin) :
    ∃ resolution' outcome',
      rebaser.searchPath.answer files (sheet.directory files.current) token.payload =
        .ok resolution' ∧
      settled origin' token resolution' (token.rebase named rebaser.options.mode
        rebaser.options.keepQuery resolution') = .ok outcome' ∧
      outcome'.text = outcome.text := by
  obtain ⟨directory, hdirectory, hanswer⟩ := Except.bind_eq_ok.mp hleads
  cases map with
  | none =>
      obtain rfl := Except.ok.inj hdirectory
      obtain ⟨outcome', houtcome', htext⟩ := exists_settled_of_path?_eq rfl houtcome origin'
      exact ⟨resolution, outcome', hanswer, houtcome', htext⟩
  | some known =>
      obtain ⟨resolution', hanswer'⟩ :=
        SearchPath.exists_answer hanswer (sheet.directory files.current)
      refine ⟨resolution', ?_⟩
      by_cases hmode : rebaser.options.mode = .keep
      · rw [hmode] at houtcome ⊢
        obtain ⟨kept, hkept, hraw⟩ :=
          @exists_settled_of_keep named origin token resolution rebaser.options.keepQuery
        obtain rfl := Except.ok.inj (hkept.symm.trans houtcome)
        obtain ⟨outcome', houtcome', hraw'⟩ := exists_settled_of_keep origin' token resolution' _
        exact ⟨outcome', hanswer', houtcome', hraw'.trans hraw.symm⟩
      · have hpath := halike known rfl hattempt hmode origin resolution horigin hleads
        rw [hanswer'] at hpath
        obtain ⟨outcome', houtcome', htext⟩ :=
          exists_settled_of_path?_eq (Except.ok.inj hpath) houtcome origin'
        exact ⟨outcome', hanswer', houtcome', htext⟩

/-- A token becomes the same without a map. -/
theorem exists_rebasedAs_withoutMaps
    {map : Option SourceMap} {rebased : RebasedToken}
    (halike : ∀ known, map = some known → rebaser.LeadsAlike files sheet known token)
    (h : rebaser.rebasedAs named files sheet ⟨map, sheet.sourceName⟩ token = .ok rebased) :
    ∃ rebased', rebaser.withoutMaps.rebasedAs named files { sheet with map := none }
        ⟨none, sheet.sourceName⟩ token = .ok rebased' ∧
      rebased'.text = rebased.text := by
  cases hattempt : rebaser.options.attemptResolve with
  | false =>
      have hattempt' : rebaser.withoutMaps.options.attemptResolve = false := hattempt
      obtain ⟨origin, -, rfl⟩ := (rebasedAs_eq_ok_iff_of_unresolved hattempt).mp h
      exact ⟨_, (rebasedAs_eq_ok_iff_of_unresolved hattempt').mpr ⟨_, rfl, rfl⟩, rfl⟩
  | true =>
      have hattempt' : rebaser.withoutMaps.options.attemptResolve = true := hattempt
      obtain ⟨origin, resolution, outcome, horigin, hleads, houtcome, rfl⟩ :=
        (rebasedAs_eq_ok_iff hattempt).mp h
      obtain ⟨resolution', outcome', hanswer', houtcome', htext⟩ :=
        exists_settled_withoutMaps halike hattempt horigin hleads houtcome
          (Lineage.here ⟨none, sheet.sourceName⟩ ⟨token.place.line, token.place.column⟩ true)
      exact ⟨_, (rebasedAs_eq_ok_iff hattempt').mpr
        ⟨_, resolution', outcome', rfl, hanswer', houtcome', rfl⟩, htext⟩

theorem exists_mapM_rebasedAs_withoutMaps
    {map : Option SourceMap} {tokens : List Token} {rebased : List RebasedToken}
    (halike : ∀ known, map = some known → ∀ token ∈ tokens,
      rebaser.LeadsAlike files sheet known token)
    (h : List.Forall₂ (fun token rebased =>
      rebaser.rebasedAs named files sheet ⟨map, sheet.sourceName⟩ token = .ok rebased)
        tokens rebased) :
    ∃ rebased', List.Forall₂ (fun token rebased' =>
        rebaser.withoutMaps.rebasedAs named files { sheet with map := none }
          ⟨none, sheet.sourceName⟩ token = .ok rebased') tokens rebased' ∧
      RebasedToken.edits tokens rebased' = RebasedToken.edits tokens rebased := by
  induction h with
  | nil => exact ⟨[], .nil, rfl⟩
  | cons hfirst _ ih =>
      obtain ⟨first, hfirst', htext⟩ := exists_rebasedAs_withoutMaps
        (fun known hknown => halike known hknown _ List.mem_cons_self) hfirst
      obtain ⟨others, hothers, hedits⟩ := ih fun known hknown token htoken =>
        halike known hknown token (List.mem_cons_of_mem _ htoken)
      refine ⟨first :: others, .cons hfirst' hothers, ?_⟩
      unfold RebasedToken.edits at hedits ⊢
      rw [List.zipWith_cons_cons, List.zipWith_cons_cons, htext, hedits]

/-- A style sheet is rebased to the same text without its map, and gets no map then. -/
theorem exists_runAs_withoutMaps
    {result : RebasedSheet} (halike : rebaser.AllLeadAlike files sheet)
    (h : rebaser.runAs named files sheet = .ok result) :
    ∃ result', rebaser.withoutMaps.runAs named files { sheet with map := none } = .ok result' ∧
      result'.text = result.text ∧ result'.map = none := by
  obtain ⟨map, remarks, rebased, hreturned, hrebased⟩ := runAs_eq_ok_iff.mp h
  obtain ⟨rebased', hrebased', hedits⟩ := exists_mapM_rebasedAs_withoutMaps
    (fun known hknown => halike known remarks (hknown ▸ hreturned.read)) hrebased
  have hcounted : checkCount { sheet with map := none }
      (RebasedToken.edits (Token.scan (rebaser.scannedText sheet)) rebased') result.text =
        .ok () := by
    have hcounted := hreturned.counted
    rw [hedits]
    unfold checkCount at hcounted ⊢
    simp only at hcounted ⊢
    split at hcounted
    · rename_i hcount
      rw [if_pos hcount]
    · cases hcounted
  refine ⟨⟨result.text, none, _, _⟩, runAs_eq_ok_iff.mpr
    ⟨none, [], rebased', ⟨rfl, hcounted, rfl, ?_, rfl, rfl⟩, hrebased'⟩, rfl, rfl⟩
  rw [hreturned.text, ← hedits]
  rfl

end Rebaser

/-! ## Processing -/

/-- Whether compiling the file of an input gives the text that compiling its text gives. -/
def Toolchain.CompilesAlike (tools : Toolchain) (files : FileSystem) : Prop :=
  ∀ input compiled text, tools.compileFile (Packer.compilationOf input) = some compiled →
    files.textOf input.path = .ok text →
    compiled.text =
      tools.compileText [Path.dirname input.path] (".sass".text.isSuffixOf input.path) text

/-- Whether no processor that is supplied from outside looks at maps. -/
def Toolchain.IgnoresMaps (tools : Toolchain) : Prop :=
  ∀ module ∈ tools.modules, ∀ member ∈ module.2, ∀ name text map,
    member.2 name text map = member.2 name text none

/-- A processor that is not there without being registered is supplied from outside. -/
theorem Processor.exists_member_of_find
    {tools : Toolchain} {registration : Setting} {run : ExternalProcessor}
    (h : find tools registration = .ok (.external run)) :
    ∃ module ∈ tools.modules, ∃ member ∈ module.2, member.2 = run := by
  obtain ⟨name, member, h⟩ : ∃ name member, findMember tools name member = .ok (.external run) := by
    unfold find at h
    split at h
    · split at h
      · cases h
      · cases h
      · cases h
      · exact ⟨_, _, h⟩
    · cases h
    · cases h
  unfold findMember at h
  split at h
  · cases h
  · split at h
    · cases h
    · cases h
    · rename_i processor hlookup
      obtain rfl := Except.ok.inj h
      obtain ⟨first, last, hfound, -⟩ := List.lookup_eq_some_iff.mp hlookup
      have hmem : (member, some (Processor.external run)) ∈
          ((modules tools).filter fun entry => entry.1 = name).flatMap Prod.snd := by
        rw [hfound]
        simp
      obtain ⟨entry, hentry, hmember⟩ := List.mem_flatMap.mp hmem
      have hentry := (List.mem_filter.mp hentry).1
      simp only [modules, builtin, List.map_cons, List.map_nil, List.cons_append, List.nil_append,
        List.mem_cons, List.mem_map] at hentry
      rcases hentry with rfl | rfl | rfl | rfl | ⟨module, hmodule, rfl⟩
      · simp at hmember
      · simp at hmember
      · simp at hmember
      · simp at hmember
      · obtain ⟨supplied, hsupplied, hsame⟩ := List.mem_map.mp hmember
        have hrun := (Prod.mk.inj hsame).2
        exact ⟨module, hmodule, supplied, hsupplied, by simpa using hrun⟩

def Draft.withoutMap (draft : Draft) : Draft :=
  { text := draft.text }

namespace Packer

variable {packer : Packer} {files : FileSystem} {input : Input}

def withoutMaps (packer : Packer) : Packer :=
  { packer with options := { packer.options with sourceMap := false } }

/-- Whether all references of an input lead alike, whenever they come to be rebased. -/
def MeetsAlike (packer : Packer) (files : FileSystem) (input : Input) : Prop :=
  ∀ met, packer.Meets files input met → packer.rebaser.AllLeadAlike files (met.sheet input)

section Drafts

variable (hcompiles : packer.tools.CompilesAlike files) (hignores : packer.tools.IgnoresMaps)
include hcompiles hignores

omit hignores in
theorem compiledOn_withoutMaps
    {draft next : Draft} (h : packer.compiledOn files input draft = .ok next) :
    packer.withoutMaps.compiledOn files input draft.withoutMap = .ok next.withoutMap := by
  obtain ⟨untouched, huntouched, h⟩ := Except.bind_eq_ok.mp h
  refine Except.bind_eq_ok.mpr ⟨false, rfl, ?_⟩
  cases untouched with
  | false =>
      obtain rfl := Except.ok.inj h
      rfl
  | true =>
      have htext : files.textOf input.path = .ok draft.text := by
        unfold compilesFile at huntouched
        split at huntouched
        · obtain ⟨text, htext, heq⟩ := Except.map_eq_ok.mp huntouched
          rw [htext, eq_of_beq heq]
        · cases huntouched
      rw [if_pos rfl] at h
      cases hcompiled : packer.tools.compileFile (compilationOf input) with
      | none => simp [hcompiled] at h
      | some compiled =>
          rw [hcompiled] at h
          obtain rfl := Except.ok.inj h
          have hsame := hcompiles input compiled draft.text hcompiled htext
          exact congrArg (fun text : Text => Except.ok ({ text } : Draft)) hsame.symm

/-- Each processor makes the same text of a draft without its map, and no map. -/
theorem draftBy_withoutMaps
    {draft next : Draft} {registration : Setting}
    (halike : Processor.find packer.tools registration = .ok .rebase →
      packer.rebaser.AllLeadAlike files (draft.sheet input))
    (h : packer.draftBy files input draft registration = .ok next) :
    packer.withoutMaps.draftBy files input draft.withoutMap registration =
      .ok next.withoutMap := by
  obtain ⟨processor, hfind, h⟩ := Except.bind_eq_ok.mp h
  refine Except.bind_eq_ok.mpr ⟨processor, hfind, ?_⟩
  cases processor with
  | minify =>
      obtain rfl := Except.ok.inj h
      rfl
  | rebase =>
      obtain ⟨rebased, hrebased, h⟩ := Except.bind_eq_ok.mp h
      obtain rfl := Except.ok.inj h
      obtain ⟨rebased', hrebased', htext, hmap⟩ :=
        Rebaser.exists_runAs_withoutMaps (halike hfind) hrebased
      refine Except.bind_eq_ok.mpr ⟨rebased', hrebased', ?_⟩
      simp [Draft.withoutMap, htext, hmap, pure, Except.pure]
  | compile => exact compiledOn_withoutMaps hcompiles h
  | external run =>
      obtain ⟨text, htext, h⟩ := Except.bind_eq_ok.mp h
      obtain rfl := Except.ok.inj h
      obtain ⟨module, hmodule, member, hmember, rfl⟩ := Processor.exists_member_of_find hfind
      have hsame := hignores module hmodule member hmember input.name draft.text draft.map
      exact Except.bind_eq_ok.mpr ⟨text, hsame.symm.trans htext, rfl⟩

theorem foldlM_withoutMaps
    {draft final : Draft} {registrations : List Setting}
    (halike : ∀ met, packer.IsMet files input met draft registrations →
      packer.rebaser.AllLeadAlike files (met.sheet input))
    (h : registrations.foldlM (packer.draftBy files input) draft = .ok final) :
    registrations.foldlM (packer.withoutMaps.draftBy files input) draft.withoutMap =
      .ok final.withoutMap := by
  induction registrations generalizing draft with
  | nil =>
      obtain rfl := Except.ok.inj h
      rfl
  | cons registration rest ih =>
      rw [List.foldlM_cons] at h ⊢
      obtain ⟨next, hnext, h⟩ := Except.bind_eq_ok.mp h
      have hfirst := draftBy_withoutMaps hcompiles hignores
        (fun hfind => halike draft (.here hfind)) hnext
      exact Except.bind_eq_ok.mpr ⟨_, hfirst, ih (fun met hmet => halike met (.later hnext hmet)) h⟩

theorem draftOn_withoutMaps
    {draft : Draft} (halike : packer.MeetsAlike files input)
    (h : packer.draftOn files input = .ok draft) :
    packer.withoutMaps.draftOn files input = .ok draft.withoutMap := by
  obtain ⟨text, htext, h⟩ := Except.bind_eq_ok.mp h
  exact Except.bind_eq_ok.mpr ⟨text, htext,
    foldlM_withoutMaps hcompiles hignores (fun met hmet => halike met ⟨text, htext, hmet⟩) h⟩

/-! ## Building -/

theorem exists_partsOn_withoutMaps
    {separator : Setting} {output : Text} {inputs : List Input}
    {built : List (Text × SourceMap.Part)}
    (halike : ∀ input ∈ inputs, packer.MeetsAlike files input)
    (h : packer.partsOn files separator output inputs = .ok built) :
    ∃ built', packer.withoutMaps.partsOn files separator output inputs = .ok built' ∧
      built'.map Prod.fst = built.map Prod.fst := by
  induction inputs generalizing built with
  | nil =>
      obtain rfl := Except.ok.inj h
      exact ⟨[], rfl, rfl⟩
  | cons input rest ih =>
      obtain ⟨hinput, hrest⟩ := List.forall_mem_cons.mp halike
      obtain ⟨draft, hdraft, h⟩ := Except.bind_eq_ok.mp h
      obtain ⟨text, htext, h⟩ := Except.bind_eq_ok.mp h
      obtain ⟨map, -, h⟩ := Except.bind_eq_ok.mp h
      obtain ⟨others, hothers, h⟩ := Except.bind_eq_ok.mp h
      obtain rfl := Except.ok.inj h
      obtain ⟨others', hothers', hsame⟩ := ih hrest hothers
      have hdraft' := draftOn_withoutMaps hcompiles hignores hinput hdraft
      refine ⟨_, Except.bind_eq_ok.mpr ⟨_, hdraft', Except.bind_eq_ok.mpr ⟨text, htext,
        Except.bind_eq_ok.mpr ⟨none, rfl, Except.bind_eq_ok.mpr ⟨others', hothers', rfl⟩⟩⟩⟩, ?_⟩
      rw [List.map_cons, List.map_cons, hsame]

/-- An asset is built to the same text without maps, and gets no map then. -/
theorem buildOn_withoutMaps
    {name output text : Text} {map : Option SourceMap} {inputs : List Input}
    (halike : ∀ input ∈ inputs, packer.MeetsAlike files input)
    (h : packer.buildOn files name inputs output = .ok (text, map)) :
    packer.withoutMaps.buildOn files name inputs output = .ok (text, none) := by
  obtain ⟨built, hbuilt, h⟩ := Except.bind_eq_ok.mp h
  have htext : text = (built.map Prod.fst).flatten := by
    simp only at h
    split at h
    · obtain ⟨_, -, h⟩ := Except.bind_eq_ok.mp h
      exact (Prod.mk.inj (Except.ok.inj h)).1.symm
    · exact (Prod.mk.inj (Except.ok.inj h)).1.symm
  obtain ⟨built', hbuilt', hsame⟩ :=
    exists_partsOn_withoutMaps hcompiles hignores halike hbuilt
  refine Except.bind_eq_ok.mpr ⟨built', hbuilt', ?_⟩
  rw [htext, ← hsame]
  rfl

end Drafts

end Packer

end UrlRebase
