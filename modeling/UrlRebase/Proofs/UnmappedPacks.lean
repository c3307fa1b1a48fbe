import UrlRebase.Proofs.NamedCopies
import UrlRebase.Proofs.SettledAssets
import UrlRebase.Proofs.UnmappedRuns

/-!
# Packs without maps

A packer that makes no maps packs the same files to the same texts, but for the lines that name
the maps.  This needs that each reference leads to the same file with the map of its style
sheet as without it.  Where it was written in another directory, which only the map tells, it
need not.
-/

namespace UrlRebase

open Work Workspace FileSystem

def FileSystem.HasText (files : FileSystem) (path text : Text) : Prop :=
  ∃ bytes, Utf8.encode? text = some bytes ∧ files.HasBytes path bytes

namespace Packer

variable {packer : Packer} {paths : Set Text} {entries : List (Setting × Setting)}
  {before before' after after' : Workspace}

/-! ## Forced packs -/

/-- A forced pack writes each asset as its inputs are built on the files with which the pack
started, if no asset is written over what is drawn on or over another. -/
theorem hasText_of_forced_pack
    (hentries : packer.entries = .ok entries)
    (hturns : ∀ entry ∈ entries, packer.drawnOn before.files entry ⊆ paths ∧
      packer.IsApart before.files entry paths ∧
      ∀ path ∈ packer.outputOf before.files.current entry, before.files.isDirectory path = false)
    (hapart : entries.Pairwise fun entry other =>
      packer.IsApart before.files entry (packer.outputOf before.files.current other) ∧
        packer.IsApart before.files other (packer.outputOf before.files.current entry))
    (hruns : Runs (packer.pack none true) before (.ok ⟨⟩) after) :
    ∀ entry ∈ entries, ∃ inputs name path text map,
      packer.inputsOn before.files entry.2 = .ok inputs ∧ fileName entry.1 = .ok name ∧
      packer.outputPath before.files.current name = .ok path ∧
      packer.buildOn before.files name inputs path = .ok (text, map) ∧
      after.files.HasText path (finished name text map) := by
  obtain ⟨packed, hcopied, -, hsettled⟩ := settled_before_copies hentries hturns hapart hruns
  have hcopying : packer.Copying packed.assets ∅ packed after :=
    (leads_copying_copyFound _ _ hcopied).1
  intro entry hentry
  cases hsettled entry hentry with
  | passedOver hforce => cases hforce
  | written hpacked hbytes =>
      obtain ⟨inputs, hinputs, hpacked⟩ := Except.bind_eq_ok.mp hpacked
      obtain ⟨name, hname, hpacked⟩ := Except.bind_eq_ok.mp hpacked
      obtain ⟨path, hpath, hpacked⟩ := Except.bind_eq_ok.mp hpacked
      obtain ⟨bytes, hbytesOf, hpacked⟩ := Except.bind_eq_ok.mp hpacked
      obtain ⟨rfl, rfl⟩ := Prod.mk.inj (Except.ok.inj hpacked)
      obtain ⟨⟨text, map⟩, hbuild, hencoded⟩ := Except.bind_eq_ok.mp hbytesOf
      rw [(gives_build (drawsWithin_drawnOn hinputs)).outcome_eq] at hbuild
      refine ⟨inputs, name, path, text, map, hinputs, hname, hpath, hbuild, bytes, ?_,
        hbytes.of_kept hcopying.kept⟩
      cases hencode : Utf8.encode? (finished name text map) with
      | none => simp [hencode] at hencoded
      | some bytes' =>
          simp only [hencode] at hencoded
          rw [Except.ok.inj hencoded]

/-! ## With maps and without -/

/-- Whether all references of the inputs of an asset lead alike. -/
def AllMeetAlike (packer : Packer) (files : FileSystem) (entry : Setting × Setting) : Prop :=
  ∀ inputs, packer.inputsOn files entry.2 = .ok inputs →
    ∀ input ∈ inputs, packer.MeetsAlike files input

/-- Whether no asset is written over what one of them draws on, with maps or without, or over
another asset. -/
structure WritesApart (packer : Packer) (files : FileSystem) (entries : List (Setting × Setting)) :
    Prop where
  drawn : ∀ entry ∈ entries, ∀ other ∈ entries, packer.IsApart files entry
    (packer.drawnOn files other ∪ packer.withoutMaps.drawnOn files other)
  outputs : entries.Pairwise fun entry other =>
    packer.IsApart files entry (packer.outputOf files.current other) ∧
      packer.IsApart files other (packer.outputOf files.current entry)
  plain : ∀ entry ∈ entries, ∀ path ∈ packer.outputOf files.current entry,
    files.isDirectory path = false

theorem foundBelow_withoutMaps (files : FileSystem) (name : Text) (roots : List Setting) :
    packer.withoutMaps.foundBelow files name roots = packer.foundBelow files name roots := by
  induction roots with
  | nil => rfl
  | cons root rest ih =>
      unfold foundBelow
      rw [ih]
      rfl

theorem inputsOn_withoutMaps (files : FileSystem) (list : Setting) :
    packer.withoutMaps.inputsOn files list = packer.inputsOn files list := by
  have hfound : packer.withoutMaps.foundPath files = packer.foundPath files := by
    funext name
    unfold foundPath
    simp only [foundBelow_withoutMaps]
    rfl
  unfold inputsOn inputOn
  rw [hfound]
  rfl

def allDrawnOn (packer : Packer) (files : FileSystem) (entries : List (Setting × Setting)) :
    Set Text :=
  {path | ∃ entry ∈ entries,
    path ∈ packer.drawnOn files entry ∪ packer.withoutMaps.drawnOn files entry}

theorem WritesApart.isApart_allDrawnOn
    {files : FileSystem} (h : packer.WritesApart files entries) :
    ∀ entry ∈ entries, packer.IsApart files entry (packer.allDrawnOn files entries) := by
  rintro entry hentry target htarget path ⟨other, hother, hpath⟩
  exact h.drawn entry hentry other hother target htarget path hpath

/-- A packer of one asset, which is not there yet, packs it if it writes it. -/
theorem runs_pack_of_write
    {name path : Text} {list : Setting} {inputs : List Input} {found : Workspace}
    (hmode : packer.options.mode ≠ .contentDerived)
    (hentries : packer.entries = .ok [(.text name, list)])
    (hfound : Runs (packer.inputsOf list) (forgotten before) (.ok inputs) found)
    (hpath : packer.outputPath found.files.current name = .ok path)
    (hmissing : found.files.exists? path = false)
    (hwrite : Runs (packer.write name inputs path) found (.ok ⟨⟩) after) :
    Runs (packer.pack none true) before (.ok ⟨⟩) after := by
  have hforget : Runs forgetFiles before (.ok ⟨⟩) (forgotten before) := rfl
  have hread : Runs (Work.lift packer.entries) (forgotten before)
      (.ok [(.text name, list)]) (forgotten before) := by
    rw [hentries]
    exact Runs.of_lift _ _
  have hcurrent : Runs current found (.ok found.files.current) found := rfl
  have hpath : Runs (Work.lift (packer.outputPath found.files.current name)) found (.ok path)
      found := by
    rw [hpath]
    exact Runs.of_lift _ _
  have htime : Runs (timeOf path) found (.ok 0) found := by
    unfold timeOf
    refine Runs.bind (Runs.of_get found) ?_
    simp only [hmissing, Bool.false_eq_true, if_false]
    exact Runs.of_pure _ _
  have hpacked : Runs (packer.packInputs true name inputs) found (.ok ⟨⟩) after :=
    Runs.bind hcurrent (Runs.bind hpath (Runs.bind htime hwrite))
  have hcopied : Runs packer.copyFound after (.ok ⟨⟩) after := by
    unfold copyFound
    rw [if_neg hmode]
    exact Runs.of_pure _ _
  have hname : Runs (Work.lift (fileName (.text name))) found (.ok name) found := rfl
  have hentry : Runs (do
      let inputs ← packer.inputsOf list
      if isAsked none (.text name) then
        packer.packInputs true (← Work.lift (fileName (.text name))) inputs) (forgotten before)
      (.ok ⟨⟩) after :=
    Runs.bind hfound (Runs.bind hname hpacked)
  exact Runs.bind hforget (Runs.bind hread
    (Runs.bind (Runs.bind hentry (Runs.of_pure PUnit.unit after)) hcopied))

theorem hasText_of_write
    {name path : Text} {inputs : List Input}
    (hwrite : Runs (packer.write name inputs path) before (.ok ⟨⟩) after) :
    ∃ text map built,
      Runs (packer.build name inputs path)
        { before with files := before.files.makeDirectories (Path.dirname path) }
        (.ok (text, map)) built ∧
      after.files.HasText path (finished name text map) := by
  obtain ⟨text, map, built, mapped, hbuilt, -, hlast⟩ := exists_build_of_write hwrite
  obtain ⟨bytes, hbytes, hwritten⟩ := exists_of_writeText hlast
  exact ⟨text, map, built, hbuilt, bytes, hbytes, (file?_of_write hwritten).1⟩

/-- What comes to be rebased behind a compiler is what an input is compiled to. -/
theorem compiledOn_of_meets
    {files : FileSystem} {input : Input} {met : Draft} {first second : Setting}
    (hprocessors : input.processors = [first, second])
    (hfind : Processor.find packer.tools first = .ok .compile)
    (h : packer.Meets files input met) :
    ∃ text, files.textOf input.path = .ok text ∧
      packer.compiledOn files input { text } = .ok met := by
  obtain ⟨text, htext, hmet⟩ := h
  rw [hprocessors] at hmet
  cases hmet with
  | here hrebase =>
      rw [hfind] at hrebase
      cases hrebase
  | later hnext hmet =>
      have hcompiled : packer.draftBy files input { text } first =
          packer.compiledOn files input { text } := by
        unfold draftBy
        rw [hfind]
        rfl
      cases hmet with
      | here => exact ⟨text, htext, hcompiled ▸ hnext⟩
      | later _ hmet => cases hmet

def mapTo (source : Text) : SourceMap :=
  .ofParts [source] [⟨⟨0, 0⟩, some 0, some 0, some 0, none⟩] [] .null .null none

/-- A packer of a style sheet in `src` that is compiled to a reference written in a source. -/
def compiling (source : Text) : Packer where
  tools := {
    compileFile := fun _ => some ⟨"url(i.png)".text, some (.map (mapTo source))⟩
    compileText := fun _ _ _ => "url(i.png)".text
    minify := id }
  base := "/p".text
  location := .text "out".text
  search := .list none [.text "src".text]
  processors := Processor.registrations
  defaults := standardDefaults
  separators := standardSeparators
  assets := .table none [(.text "a.css".text, .text "a.scss".text)]

/-- The style sheet, which imports another, and images with one name in two directories. -/
def compiledFiles : FileSystem :=
  (((FileSystem.empty "/p".text).place "/p/src/a.scss".text
    ⟨"@import \"b\"".toUTF8, 1, true⟩).place "/p/src/i.png".text ⟨.empty, 1, true⟩).place
      "/p/src/part/i.png".text ⟨.empty, 1, true⟩

def compiledInput : Input where
  name := "a.scss".text
  path := "/p/src/a.scss".text
  processors := [.text "cssrebase.processors.sass.process".text,
    .text "cssrebase.processors.rewrite.process".text]
  depends := .list none []

theorem runs_inputsOf_compiling (source : Text) :
    Runs ((compiling source).inputsOf (.text "a.scss".text)) { files := compiledFiles }
      (.ok [compiledInput]) { files := compiledFiles } := by
  unfold Runs
  cbv

theorem inputsOn_compiling (source : Text) :
    (compiling source).inputsOn compiledFiles (.text "a.scss".text) = .ok [compiledInput] := by
  have hgives : Gives Set.univ compiledFiles ((compiling source).inputsOf (.text "a.scss".text))
      ((compiling source).inputsOn compiledFiles (.text "a.scss".text)) :=
    gives_inputsOf fun path _ => Set.mem_univ path
  exact (hgives.eq_of_runs (knows_of_files _ _) (runs_inputsOf_compiling source)).1.symm

section Compiled

variable {source : Text} {met : Draft}

theorem find_compile {tools : Toolchain} :
    Processor.find tools (.text "cssrebase.processors.sass.process".text) = .ok .compile := by
  rfl

theorem eq_of_meets_compiling (h : (compiling source).Meets compiledFiles compiledInput met) :
    met = ⟨"url(i.png)".text, some (.map (mapTo source))⟩ := by
  obtain ⟨text, htext, hcompiled⟩ := compiledOn_of_meets rfl find_compile h
  obtain ⟨untouched, huntouched, hcompiled⟩ := Except.bind_eq_ok.mp hcompiled
  have hmade : (compiling source).compilesFile compiledFiles compiledInput { text } =
      (compiledFiles.textOf compiledInput.path).map (text == ·) := rfl
  rw [hmade, htext, Except.map, beq_self_eq_true] at huntouched
  obtain rfl := Except.ok.inj huntouched
  exact (Except.ok.inj hcompiled).symm

theorem eq_of_meets_withoutMaps
    (h : (compiling source).withoutMaps.Meets compiledFiles compiledInput met) :
    met = ⟨"url(i.png)".text, none⟩ := by
  obtain ⟨text, -, hcompiled⟩ := compiledOn_of_meets rfl find_compile h
  exact (Except.ok.inj hcompiled).symm

theorem scan_compiled :
    Token.scan "url(i.png)".text = [⟨0, 0, ⟨0, 0⟩, ⟨[], .none, "i.png".text, []⟩⟩] := by
  with_unfolding_all rfl

/-- What the reference of the compiled style sheet may lead to, if it was written beside the
style sheet. -/
theorem leads_compiled
    {given : Option SourceMap.Given} {map : Option SourceMap} {remarks : List Diagnostic}
    {token : Token} {origin : Origin} {directory : Text}
    (hgiven : given = none ∨ given = some (.map (mapTo "b.scss".text)))
    (hread : Rebaser.readMap (Draft.sheet compiledInput ⟨"url(i.png)".text, given⟩) =
      .ok (map, remarks))
    (htoken : token ∈ Token.scan "url(i.png)".text)
    (horigin : Lineage.origin ⟨map, "/p/src/a.scss".text⟩ ⟨token.place.line, token.place.column⟩ =
      .ok origin)
    (hdirectory : Rebaser.referenceDirectory "/p".text
      (Draft.sheet compiledInput ⟨"url(i.png)".text, given⟩) ⟨map, "/p/src/a.scss".text⟩ origin =
        .ok directory) :
    directory = "/p/src".text ∧ token.payload.path = "i.png".text := by
  rw [scan_compiled] at htoken
  obtain rfl := List.mem_singleton.mp htoken
  refine ⟨?_, by cbv⟩
  rcases hgiven with rfl | rfl
  · obtain ⟨rfl, -⟩ := Prod.mk.inj (Except.ok.inj hread)
    have hhome : Rebaser.referenceDirectory "/p".text
        (Draft.sheet compiledInput ⟨"url(i.png)".text, none⟩) ⟨none, "/p/src/a.scss".text⟩ origin =
          .ok "/p/src".text :=
      rfl
    exact (Except.ok.inj (hhome.symm.trans hdirectory)).symm
  · obtain ⟨rfl, -⟩ := Prod.mk.inj (Except.ok.inj hread)
    have hmapped : Lineage.origin ⟨some (mapTo "b.scss".text), "/p/src/a.scss".text⟩ ⟨0, 0⟩ =
        .ok ⟨"b.scss".text, some 0, some 0, some 0, none, true⟩ := by
      with_unfolding_all rfl
    obtain rfl := Except.ok.inj (hmapped.symm.trans horigin)
    have hhome : Rebaser.referenceDirectory "/p".text
        (Draft.sheet compiledInput ⟨"url(i.png)".text, some (.map (mapTo "b.scss".text))⟩)
        ⟨some (mapTo "b.scss".text), "/p/src/a.scss".text⟩
        ⟨"b.scss".text, some 0, some 0, some 0, none, true⟩ = .ok "/p/src".text :=
      rfl
    exact (Except.ok.inj (hhome.symm.trans hdirectory)).symm

theorem allMeetAlike_compiling :
    (compiling "b.scss".text).AllMeetAlike compiledFiles
      (.text "a.css".text, .text "a.scss".text) := by
  intro inputs hinputs input hinput met hmet map remarks hread token htoken _ _ origin resolution
    horigin hleads
  obtain rfl := Except.ok.inj ((inputsOn_compiling _).symm.trans hinputs)
  obtain rfl := List.mem_singleton.mp hinput
  obtain rfl := eq_of_meets_compiling hmet
  obtain ⟨directory, hdirectory, hanswer⟩ := Except.bind_eq_ok.mp hleads
  obtain ⟨rfl, -⟩ := leads_compiled (.inr rfl) hread htoken horigin hdirectory
  have hhome : StyleSheet.directory (Draft.sheet compiledInput
      ⟨"url(i.png)".text, some (.map (mapTo "b.scss".text))⟩) compiledFiles.current =
        "/p/src".text :=
    rfl
  rw [hhome, hanswer]
  rfl

theorem mem_of_searchesFor_compiling
    {path : Text} (h : (compiling source).SearchesFor "/p".text (.text "a.scss".text) path) :
    path ∈ ["/p/src/a.scss".text, "/p/src/i.png".text] := by
  obtain ⟨elements, element, plan, helements, helement, hplan, roots, root, text, hroots, hroot,
    htext, rfl⟩ := h
  have hplanOf : (compiling source).planOf (.text "a.scss".text) =
      .ok ⟨"a.scss".text, .list none [], compiledInput.processors⟩ := by
    with_unfolding_all rfl
  obtain rfl := Except.ok.inj helements
  obtain rfl := List.mem_singleton.mp helement
  obtain rfl := Except.ok.inj (hplanOf.symm.trans hplan)
  obtain rfl := Option.some.inj hroots
  obtain rfl := List.mem_singleton.mp hroot
  obtain rfl := Except.ok.inj htext
  have hjoined : Path.join ((compiling source).fromBase "/p".text "src".text) "a.scss".text =
      "/p/src/a.scss".text := by
    cbv
  exact List.mem_cons.mpr (.inl hjoined)

theorem mem_of_leadsTo
    {packer : Packer} {given : Option SourceMap.Given} {path : Text}
    (hsearch : packer.searchPath = ⟨[], none, false⟩) (hkeep : packer.options.dropReturns = false)
    (hgiven : given = none ∨ given = some (.map (mapTo "b.scss".text)))
    (h : Draft.LeadsTo packer "/p".text compiledInput ⟨"url(i.png)".text, given⟩ path) :
    path ∈ ["/p/src/a.scss".text, "/p/src/i.png".text] := by
  obtain ⟨map, remarks, hread, token, htoken, origin, directory, candidates, horigin, hdirectory,
    hcandidates, hpath⟩ := h
  have hscanned : packer.rebaser.scannedText
      (Draft.sheet compiledInput ⟨"url(i.png)".text, given⟩) = "url(i.png)".text := by
    simp [Rebaser.scannedText, rebaser, hkeep, Draft.sheet]
  rw [hscanned] at htoken
  obtain ⟨rfl, himage⟩ := leads_compiled hgiven hread htoken horigin hdirectory
  have hone : SearchPath.candidates ⟨[], none, false⟩ "/p".text "/p/src".text "i.png".text =
      .ok ["/p/src/i.png".text] := by
    with_unfolding_all rfl
  rw [rebaser, hsearch, himage, hone] at hcandidates
  obtain rfl := Except.ok.inj hcandidates
  rw [List.mem_singleton.mp hpath]
  decide

theorem mem_of_drawnOn_compiling
    {path : Text}
    (h : path ∈ (compiling "b.scss".text).drawnOn compiledFiles
        (.text "a.css".text, .text "a.scss".text) ∪
      (compiling "b.scss".text).withoutMaps.drawnOn compiledFiles
        (.text "a.css".text, .text "a.scss".text)) :
    path ∈ ["/p/src/a.scss".text, "/p/src/i.png".text] := by
  have hsearched (hsearch : (compiling "b.scss".text).SearchesFor "/p".text
      (.text "a.scss".text) path) := mem_of_searchesFor_compiling hsearch
  rcases h with (hsearch | ⟨inputs, hinputs, input, hinput, met, hmet, hleads⟩) |
    (hsearch | ⟨inputs, hinputs, input, hinput, met, hmet, hleads⟩)
  · exact hsearched hsearch
  · obtain rfl := Except.ok.inj ((inputsOn_compiling _).symm.trans hinputs)
    obtain rfl := List.mem_singleton.mp hinput
    obtain rfl := eq_of_meets_compiling hmet
    exact mem_of_leadsTo rfl rfl (.inr rfl) hleads
  · exact hsearched hsearch
  · rw [inputsOn_withoutMaps] at hinputs
    obtain rfl := Except.ok.inj ((inputsOn_compiling _).symm.trans hinputs)
    obtain rfl := List.mem_singleton.mp hinput
    obtain rfl := eq_of_meets_withoutMaps hmet
    exact mem_of_leadsTo rfl rfl (.inl rfl) hleads

theorem outputPath_compiling :
    (compiling source).outputPath "/p".text "a.css".text = .ok "/p/out/a.css".text := by
  rfl

theorem eq_of_isOutput_compiling
    {path : Text}
    (h : (compiling source).IsOutput "/p".text (.text "a.css".text, .text "a.scss".text) path) :
    path = "/p/out/a.css".text := by
  obtain ⟨name, hname, hpath⟩ := h
  obtain rfl := Except.ok.inj hname
  exact Except.ok.inj (hpath.symm.trans outputPath_compiling)

theorem writesApart_compiling
    (hapart : ∀ target ∈ ["/p/out/a.css".text, "/p/out/a.css".text ++ ".map".text],
      ∀ path ∈ ["/p/src/a.scss".text, "/p/src/i.png".text], compiledFiles.Apart target path) :
    (compiling "b.scss".text).WritesApart compiledFiles
      [(.text "a.css".text, .text "a.scss".text)] := by
  refine ⟨?_, List.pairwise_singleton _ _, ?_⟩
  · rintro entry hentry other hother target ⟨output, houtput, htarget⟩ path hpath
    obtain rfl := List.mem_singleton.mp hentry
    obtain rfl := List.mem_singleton.mp hother
    obtain rfl := eq_of_isOutput_compiling houtput
    exact hapart target (by simpa using htarget) path (mem_of_drawnOn_compiling hpath)
  · intro entry hentry path hpath
    obtain rfl := List.mem_singleton.mp hentry
    rw [eq_of_isOutput_compiling hpath]
    rfl

theorem compilesAlike_compiling : (compiling source).tools.CompilesAlike compiledFiles := by
  intro input compiled text hcompiled _
  obtain rfl := Option.some.inj hcompiled
  rfl

end Compiled

/-! ## With the map and without it -/

/-- The compiled style sheet is packed if it is built to a text with a map, and with that text. -/
theorem exists_runs_pack_compiling
    (h : (compiling source).savesStart "a.css".text [compiledInput] "/p/out/a.css".text
      { files := compiledFiles.makeDirectories (Path.dirname "/p/out/a.css".text) } = true) :
    ∃ after text map built,
      Runs ((compiling source).pack none true) { files := compiledFiles } (.ok ⟨⟩) after ∧
      Runs ((compiling source).build "a.css".text [compiledInput] "/p/out/a.css".text)
        { files := compiledFiles.makeDirectories (Path.dirname "/p/out/a.css".text) }
        (.ok (text, map)) built ∧
      after.files.HasText "/p/out/a.css".text (finished "a.css".text text map) := by
  obtain ⟨after, hwrite⟩ := exists_runs_write (compiling source) "a.css".text [compiledInput]
    "/p/out/a.css".text { files := compiledFiles } h
  obtain ⟨text, map, built, hbuilt, htext⟩ := hasText_of_write hwrite
  have hmissing : compiledFiles.exists? "/p/out/a.css".text = false := rfl
  exact ⟨after, text, map, built, runs_pack_of_write (by simp [compiling]) rfl
    (runs_inputsOf_compiling source) outputPath_compiling hmissing hwrite, hbuilt, htext⟩

end Packer

end UrlRebase
