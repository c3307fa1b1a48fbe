import UrlRebase.Proofs.ChangedInputs

/-!
# Incremental packing

A pack passes over an asset none of whose inputs is newer.  After a pack that left all assets
up to date, and files that were saved and deleted, this does no harm: the pack leaves each asset
with the bytes that a forced pack would write, as long as no input of the asset is gone.

An input that is gone makes nothing newer, so an asset that was built with it is passed over and
keeps it.
-/

namespace UrlRebase.Packer

open Work Workspace FileSystem

variable {packer : Packer} {spared looked : Set Text} {files files' : FileSystem}
  {entry : Setting × Setting} {force : Bool}

/-! ## Assets that are up to date -/

/-- Whether an asset is there with the bytes to which its inputs are packed. -/
def IsUpToDate (packer : Packer) (files : FileSystem) (entry : Setting × Setting) : Prop :=
  ∃ path bytes, packer.packedOn files entry = .ok (path, bytes) ∧ files.HasBytes path bytes

theorem bytesOf_of_sameAt
    {paths : Set Text} {inputs : List Input} (hinputs : packer.DrawsWithin paths files inputs)
    (hsame : files.SameAt paths files') (name path : Text) :
    packer.bytesOf files' name inputs path = packer.bytesOf files name inputs path := by
  unfold bytesOf
  rw [(Steady.of_gives (gives_build hinputs)).outcome_of_sameAt hsame]

theorem inputsOn_of_sameAt
    {list : Setting} {paths : Set Text}
    (hlooks : ∀ path, packer.SearchesFor files.current list path → path ∈ paths)
    (hsame : files.SameAt paths files') :
    packer.inputsOn files' list = packer.inputsOn files list := by
  have hgives := gives_inputsOf hlooks
  have hgives' : Gives paths files' (packer.inputsOf list) (packer.inputsOn files' list) :=
    gives_inputsOf fun path hpath => hlooks path (hsame.current ▸ hpath)
  rw [← hgives'.outcome_eq, (Steady.of_gives hgives).outcome_of_sameAt hsame, hgives.outcome_eq]

/-- What an asset is packed to is told by the paths that are consulted for it. -/
theorem packedOn_of_sameAt
    (honly : packer.OnlyRebases entry)
    (hsame : files.SameAt (packer.consulted files entry) files') :
    packer.packedOn files' entry = packer.packedOn files entry := by
  unfold packedOn
  rw [inputsOn_of_sameAt (fun path hpath => .inl hpath) hsame, hsame.current]
  cases hinputs : packer.inputsOn files entry.2 with
  | error error => rfl
  | ok inputs =>
      simp only [bind, Except.bind,
        bytesOf_of_sameAt
          ((drawsWithin_drawnOn hinputs).mono (drawnOn_subset_consulted honly)) hsame]

/-! ## Assets that are passed over -/

theorem isDirectory_of_textOf
    {path text : Text} (h : files.textOf path = .ok text) : files.isDirectory path = false := by
  obtain ⟨bytes, hread, -⟩ := Except.bind_eq_ok.mp h
  rw [Except.mapError_eq_ok, FileSystem.read] at hread
  split at hread
  · cases hread
  · rename_i hplain
    rwa [Bool.not_eq_true] at hplain

/-- What has to be left alone for an asset to be built as before from inputs that are as
before, besides the current directory: the asset, and where the references may lead. -/
def sparedFor (packer : Packer) (files : FileSystem) (entry : Setting × Setting) : Set Text :=
  packer.outputOf files.current entry ∪
    {path | ∃ inputs, packer.inputsOn files entry.2 = .ok inputs ∧
      ∃ input ∈ inputs, packer.Refers files input path}

section PassedOver

variable (hchanged : files.Changed spared looked files') (hhere : [] ∈ spared)
  (hspared : packer.sparedFor files entry ⊆ spared)
  (hlooked : ∀ path, packer.SearchesFor files.current entry.2 path → path ∈ looked)
include hchanged hhere hspared hlooked

omit hhere hlooked in
/-- The file of an input of an asset that is passed over is the one that was there before. -/
theorem file?_of_isPassedOver
    {inputs : List Input} (hpassed : packer.IsPassedOver files' entry)
    (hinputs : packer.inputsOn files' entry.2 = .ok inputs) :
    ∀ input ∈ inputs, files'.isDirectory input.path = false → ∀ file,
      files'.file? input.path = some file → files.file? input.path = some file := by
  intro input hinput hplain file hfile
  obtain ⟨path, time, inputs', houtput, htime, -, hnonzero, hinputs', hold⟩ := hpassed
  obtain rfl := Except.ok.inj (hinputs.symm.trans hinputs')
  obtain ⟨changed, hchange, hle⟩ := hold input hinput
  rw [FileSystem.timeOf, hplain, hfile] at hchange
  obtain rfl := Except.ok.inj hchange
  rw [hchanged.current] at houtput
  have hpath : path ∈ spared := hspared (.inl houtput)
  unfold FileSystem.timeOf at htime
  split at htime
  · exact absurd (Except.ok.inj htime).symm hnonzero
  · cases hasset : files'.file? path with
    | none => simp [hasset] at htime
    | some asset =>
        rw [hasset] at htime
        obtain rfl := Except.ok.inj htime
        exact hchanged.file?_of_le hpath ((hchanged.file path hpath).symm.trans hasset) hfile hle

theorem inputsOn_of_isPassedOver
    (hkept : ∀ path, packer.Finds files entry.2 path → files'.exists? path = true)
    (hpassed : packer.IsPassedOver files' entry) :
    packer.inputsOn files' entry.2 = packer.inputsOn files entry.2 := by
  refine inputsOn_eq hchanged.current hkept fun path hfinds => ?_
  obtain ⟨_, _, inputs, -, -, -, -, hinputs, -⟩ := id hpassed
  have hlook : packer.SearchesFor files.current entry.2 path ∧ files'.exists? path = true := by
    obtain ⟨elements, element, plan, helements, helement, hplan, hpath⟩ := hfinds
    obtain ⟨hsearches, hthere⟩ := of_foundPath hpath
    exact ⟨⟨elements, element, plan, helements, helement, hplan, hchanged.current ▸ hsearches⟩,
      hthere⟩
  obtain ⟨hlook, hthere⟩ := hlook
  have hdirectory := hchanged.directory path (.inr (hlooked path hlook))
  rw [FileSystem.exists?, Bool.or_eq_true] at hthere ⊢
  rcases hthere with hfile | hthere
  · -- The empty path is no input, so it has no time; it means the current directory.
    by_cases hpath : path = []
    · rw [FileSystem.isFile, hpath, ← hchanged.file [] hhere, ← hpath]
      exact .inl hfile
    · obtain ⟨input, hinput, rfl⟩ := exists_input_of_finds hpath hfinds hinputs
      cases hplain : files'.isDirectory input.path with
      | true => exact .inr (hdirectory ▸ hplain)
      | false =>
          obtain ⟨file, hfile⟩ := Option.isSome_iff_exists.mp hfile
          have hold := file?_of_isPassedOver hchanged hspared hpassed hinputs input
            hinput hplain file hfile
          exact .inl (Option.isSome_iff_exists.mpr ⟨file, hold⟩)
  · exact .inr (hdirectory ▸ hthere)

/-- Where the inputs are and where their references may lead there is the same as before. -/
theorem sameAt_of_isPassedOver
    {name path : Text} {inputs : List Input} {bytes : ByteArray}
    (hkept : ∀ path, packer.Finds files entry.2 path → files'.exists? path = true)
    (hinputs : packer.inputsOn files entry.2 = .ok inputs)
    (hbytes : packer.bytesOf files name inputs path = .ok bytes)
    (hpassed : packer.IsPassedOver files' entry) :
    files.SameAt {path | ∃ input ∈ inputs, path = input.path ∨ packer.Refers files input path}
      files' := by
  have hinputs' := (inputsOn_of_isPassedOver hchanged hhere hspared hlooked hkept hpassed).trans
    hinputs
  have hrefers {path : Text} {input : Input} (hinput : input ∈ inputs)
      (hrefers : packer.Refers files input path) : path ∈ spared :=
    hspared (.inr ⟨inputs, hinputs, input, hinput, hrefers⟩)
  have hdirectory (input : Input) (hinput : input ∈ inputs) :=
    hchanged.directory input.path (.inr (hlooked _ (searchesFor_of_inputsOn hinputs input hinput)))
  refine ⟨hchanged.current, ?_, ?_⟩
  · rintro path ⟨input, hinput, rfl | hpath⟩
    · -- The input was read, so it was a file, and one that is there now is not newer.
      obtain ⟨made, hbuild, -⟩ := Except.bind_eq_ok.mp hbytes
      obtain ⟨text, htext⟩ :=
        textOf_of_build (drawsWithin_drawnOn hinputs) hbuild input hinput
      obtain ⟨elements, element, plan, helements, helement, hplan, hpath, -⟩ :=
        exists_plan_of_inputsOn hinputs input hinput
      have hthere := hkept _ ⟨elements, element, plan, helements, helement, hplan, hpath⟩
      have hplain := (hdirectory input hinput).trans (isDirectory_of_textOf htext)
      rw [FileSystem.exists?, hplain, Bool.or_false] at hthere
      obtain ⟨file, hfile⟩ := Option.isSome_iff_exists.mp hthere
      rw [hfile, file?_of_isPassedOver hchanged hspared hpassed hinputs' input hinput hplain file
        hfile]
    · exact hchanged.file path (hrefers hinput hpath)
  · rintro path ⟨input, hinput, rfl | hpath⟩
    · exact hdirectory input hinput
    · exact hchanged.directory path (.inl (hrefers hinput hpath))

/-- An asset that is passed over is packed to what it was packed to before, if none of its
inputs is gone. -/
theorem packedOn_of_isPassedOver
    {path : Text} {bytes : ByteArray} (honly : packer.OnlyRebases entry)
    (hkept : ∀ path, packer.Finds files entry.2 path → files'.exists? path = true)
    (hpacked : packer.packedOn files entry = .ok (path, bytes))
    (hpassed : packer.IsPassedOver files' entry) :
    packer.packedOn files' entry = .ok (path, bytes) := by
  have hsameInputs :=
    inputsOn_of_isPassedOver hchanged hhere hspared hlooked hkept hpassed
  obtain ⟨inputs, hinputs, hpacked⟩ := Except.bind_eq_ok.mp hpacked
  obtain ⟨name, hname, hpacked⟩ := Except.bind_eq_ok.mp hpacked
  obtain ⟨path', hpath, hpacked⟩ := Except.bind_eq_ok.mp hpacked
  obtain ⟨bytes', hbytes, hpacked⟩ := Except.bind_eq_ok.mp hpacked
  obtain ⟨rfl, rfl⟩ := Prod.mk.inj (Except.ok.inj hpacked)
  have hwithin : packer.DrawsWithin
      {path | ∃ input ∈ inputs, path = input.path ∨ packer.Refers files input path} files inputs :=
    fun input hinput => ⟨⟨input, hinput, .inl rfl⟩, fun _ hreaches =>
      ⟨input, hinput, .inr (refers_of_reaches (honly.isOnlyRebased hinputs input hinput) hreaches)⟩⟩
  have hsame :=
    sameAt_of_isPassedOver hchanged hhere hspared hlooked hkept hinputs hbytes hpassed
  refine Except.bind_eq_ok.mpr ⟨inputs, hsameInputs.trans hinputs, Except.bind_eq_ok.mpr
    ⟨name, hname, Except.bind_eq_ok.mpr ⟨path', hchanged.current ▸ hpath, ?_⟩⟩⟩
  rw [bytesOf_of_sameAt hwithin hsame, hbytes]
  rfl

end PassedOver

/-! ## Packs -/

/-- What is left alone between packs: the assets, where the references of their inputs may
lead, and the current directory. -/
def sparedPaths (packer : Packer) (files : FileSystem) (entries : List (Setting × Setting)) :
    Set Text :=
  {path | path = [] ∨ ∃ entry ∈ entries, path ∈ packer.sparedFor files entry}

def lookedPaths (packer : Packer) (current : Text) (entries : List (Setting × Setting)) :
    Set Text :=
  {path | ∃ entry ∈ entries, packer.SearchesFor current entry.2 path}

/-- Whether an asset is not there yet, or is up to date. -/
def IsFresh (packer : Packer) (files : FileSystem) (entry : Setting × Setting) : Prop :=
  (∀ path ∈ packer.outputOf files.current entry, files.exists? path = false) ∨
    packer.IsUpToDate files entry

section Packs

variable {entries : List (Setting × Setting)} {before after : Workspace}
  (hentries : packer.entries = .ok entries) (honly : ∀ entry ∈ entries, packer.OnlyRebases entry)
  (hseparate : packer.Separate before.files entries)
include hentries honly hseparate

/-- What is packed to some bytes and written, or passed over with these bytes, is up to date
behind a pack. -/
theorem upToDate_of_pack
    (hfresh : force = true ∨ ∀ entry ∈ entries, packer.IsFresh before.files entry)
    (hruns : Runs (packer.pack none force) before (.ok ⟨⟩) after) :
    ∀ entry ∈ entries, packer.IsUpToDate after.files entry := by
  obtain ⟨hsame, hsettled⟩ := settled_of_pack hentries honly hseparate hruns
  intro entry hentry
  have hpackedOn := packedOn_of_sameAt (honly entry hentry)
    (hsame.mono fun path hpath => ⟨entry, hentry, hpath⟩)
  cases hsettled entry hentry with
  | written hpacked hbytes => exact ⟨_, _, hpackedOn.trans hpacked, hbytes⟩
  | passedOver hforce hpassed hown =>
      obtain ⟨path, _, _, houtput, -, hthere, -⟩ := hpassed
      rcases hfresh.resolve_left (by simp [hforce]) entry hentry with hmissing | hcurrent
      · rw [hmissing path houtput] at hthere
        cases hthere
      · obtain ⟨path, bytes, hpacked, hbytes⟩ := hcurrent
        exact ⟨path, bytes, hpackedOn.trans hpacked,
          hbytes.of_sameAt hown (isOutput_of_packedOn hpacked)⟩

theorem hasBytes_of_forced_pack
    (hruns : Runs (packer.pack none true) before (.ok ⟨⟩) after) :
    ∀ entry ∈ entries, ∃ path bytes, packer.packedOn before.files entry = .ok (path, bytes) ∧
      after.files.HasBytes path bytes := by
  intro entry hentry
  cases (settled_of_pack hentries honly hseparate hruns).2 entry hentry with
  | written hpacked hbytes => exact ⟨_, _, hpacked, hbytes⟩
  | passedOver hforce => cases hforce

omit hentries honly hseparate in
theorem sparedFor_subset (hentry : entry ∈ entries) :
    packer.sparedFor files entry ⊆ packer.sparedPaths files entries :=
  fun _ hpath => .inr ⟨entry, hentry, hpath⟩

/-- Assets that were up to date before files changed hold the bytes to which they are packed
then behind a pack, if none of their inputs is gone. -/
theorem hasBytes_of_pack_of_changed
    {packed : FileSystem} (hcurrent : ∀ entry ∈ entries, packer.IsUpToDate packed entry)
    (hchanged : packed.Changed (packer.sparedPaths packed entries)
      (packer.lookedPaths packed.current entries) before.files)
    (hruns : Runs (packer.pack none force) before (.ok ⟨⟩) after) :
    ∀ entry ∈ entries,
      (∀ path, packer.Finds packed entry.2 path → before.files.exists? path = true) →
        ∃ path bytes, packer.packedOn before.files entry = .ok (path, bytes) ∧
          after.files.HasBytes path bytes := by
  intro entry hentry hkept
  cases (settled_of_pack hentries honly hseparate hruns).2 entry hentry with
  | written hpacked hbytes => exact ⟨_, _, hpacked, hbytes⟩
  | passedOver hforce hpassed hsame =>
      obtain ⟨path, bytes, hpacked, hbytes⟩ := hcurrent entry hentry
      have hpackedOn := packedOn_of_isPassedOver hchanged (.inl rfl) (sparedFor_subset hentry)
        (fun path hpath => ⟨entry, hentry, hpath⟩) (honly entry hentry) hkept hpacked hpassed
      refine ⟨path, bytes, hpackedOn, HasBytes.of_sameAt ?_ hsame (isOutput_of_packedOn hpackedOn)⟩
      rw [HasBytes, hchanged.file path
        (sparedFor_subset hentry (.inl (isOutput_of_packedOn hpacked)))]
      exact hbytes

end Packs

/-! ## A packer that searches two directories -/

/-- A packer of the style sheet `site.css` from inputs with the given names in the directories
`lib` and `src`, without source maps. -/
def bundling (names : List Text) : Packer :=
  { ofNames [] with
    search := .list none [.text "lib".text, .text "src".text]
    assets := .table none [(.text "site.css".text, .list none (names.map .text))]
    options := { sourceMap := false } }

def siteEntry : Setting × Setting :=
  (.text "site.css".text, .list none [.text "a.css".text])

theorem planOf_siteEntry :
    (bundling ["a.css".text]).planOf (.text "a.css".text) =
      .ok ⟨"a.css".text, .list none [], [.text "cssrebase.processors.rewrite.process".text]⟩ := by
  cbv

theorem mem_of_searchesFor
    {path : Text} (h : (bundling ["a.css".text]).SearchesFor "/p".text siteEntry.2 path) :
    path ∈ ["/p/lib/a.css".text, "/p/src/a.css".text] := by
  obtain ⟨elements, element, plan, helements, helement, hplan, roots, root, text, hroots, hroot,
    htext, rfl⟩ := h
  obtain rfl := Except.ok.inj helements
  obtain rfl := List.mem_singleton.mp helement
  obtain rfl := Except.ok.inj (planOf_siteEntry.symm.trans hplan)
  obtain rfl := Option.some.inj hroots
  rcases List.mem_cons.mp hroot with rfl | hroot
  · obtain rfl := Except.ok.inj htext
    decide_cbv
  · obtain rfl := List.mem_singleton.mp hroot
    obtain rfl := Except.ok.inj htext
    decide_cbv

theorem onlyRebases_siteEntry : (bundling ["a.css".text]).OnlyRebases siteEntry := by
  intro elements helements element helement plan hplan
  obtain rfl := Except.ok.inj helements
  obtain rfl := List.mem_singleton.mp helement
  obtain rfl := Except.ok.inj (planOf_siteEntry.symm.trans hplan)
  exact ⟨_, rfl, rfl⟩

theorem eq_of_isOutput
    {path : Text} (h : (bundling ["a.css".text]).IsOutput "/p".text siteEntry path) :
    path = "/p/out/site.css".text := by
  obtain ⟨name, hname, hpath⟩ := h
  obtain rfl := Except.ok.inj hname
  obtain rfl := Except.ok.inj hpath
  cbv

/-- Whether neither of the style sheets that can be the input has references. -/
def lacksReferences (files : FileSystem) : Bool :=
  ["/p/lib/a.css".text, "/p/src/a.css".text].all fun path =>
    match files.textOf path with
    | .ok text => Token.scan text = []
    | .error _ => true

theorem not_refers
    {input : Input} {path : Text} (h : lacksReferences files = true)
    (hinput : input.path ∈ ["/p/lib/a.css".text, "/p/src/a.css".text]) :
    ¬(bundling ["a.css".text]).Refers files input path := by
  rintro ⟨text, htext, token, htoken, -⟩
  have hscan := List.all_eq_true.mp h _ hinput
  rw [htext, decide_eq_true_iff] at hscan
  have hscanned : (bundling ["a.css".text]).rebaser.scannedText (sheetOf input text) = text := rfl
  rw [hscanned, hscan] at htoken
  cases htoken

section SiteEntry

variable (hcurrent : files.current = "/p".text) (hreferences : lacksReferences files = true)
include hcurrent hreferences

theorem not_refers_of_inputsOn
    {inputs : List Input} {input : Input} {path : Text}
    (hinputs : (bundling ["a.css".text]).inputsOn files siteEntry.2 = .ok inputs)
    (hinput : input ∈ inputs) : ¬(bundling ["a.css".text]).Refers files input path :=
  not_refers hreferences
    (mem_of_searchesFor (hcurrent ▸ searchesFor_of_inputsOn hinputs input hinput))

theorem mem_of_consulted
    {path : Text} (h : path ∈ (bundling ["a.css".text]).consulted files siteEntry) :
    path ∈ ["/p/lib/a.css".text, "/p/src/a.css".text] := by
  rcases h with hsearch | ⟨inputs, hinputs, input, hinput, hrefers⟩
  · exact mem_of_searchesFor (hcurrent ▸ hsearch)
  · exact absurd hrefers (not_refers_of_inputsOn hcurrent hreferences hinputs hinput)

theorem mem_of_sparedPaths
    {path : Text} (h : path ∈ (bundling ["a.css".text]).sparedPaths files [siteEntry]) :
    path ∈ [[], "/p/out/site.css".text] := by
  rcases h with rfl | ⟨entry, hentry, hpath⟩
  · exact List.mem_cons_self
  · obtain rfl := List.mem_singleton.mp hentry
    rcases hpath with houtput | ⟨inputs, hinputs, input, hinput, hrefers⟩
    · have hpath := eq_of_isOutput (hcurrent ▸ houtput)
      simp [hpath]
    · exact absurd hrefers (not_refers_of_inputsOn hcurrent hreferences hinputs hinput)

theorem separate_siteEntry
    (hplain : files.isDirectory "/p/out/site.css".text = false) :
    (bundling ["a.css".text]).Separate files [siteEntry] := by
  have hcurrent' : files.current = (FileSystem.empty "/p".text).current := hcurrent
  refine ⟨?_, List.pairwise_singleton _ _, ?_, fun target htarget => absurd htarget.1 (by decide)⟩
  · rintro entry hentry other hother target ⟨path', houtput, htarget⟩ path hpath
    obtain rfl := List.mem_singleton.mp hentry
    obtain rfl := List.mem_singleton.mp hother
    obtain rfl := eq_of_isOutput (hcurrent ▸ houtput)
    have hpath := mem_of_consulted hcurrent hreferences hpath
    have hapart : ∀ target ∈ ["/p/out/site.css".text, "/p/out/site.css".text ++ ".map".text],
        ∀ path ∈ ["/p/lib/a.css".text, "/p/src/a.css".text],
          (FileSystem.empty "/p".text).Apart target path ∧
            (FileSystem.empty "/p".text).isDirectory path = false := by
      decide +kernel
    obtain ⟨hapart, hempty⟩ := hapart target (by simpa using htarget) path hpath
    exact hapart.congr_of_plain hcurrent' hempty
  · intro entry hentry path hpath
    obtain rfl := List.mem_singleton.mp hentry
    have hpath := eq_of_isOutput (hcurrent ▸ hpath)
    exact hpath ▸ hplain

end SiteEntry


def sourceSheets : FileSystem :=
  ((FileSystem.empty "/p".text).place "/p/src/a.css".text ⟨"a\x7b\x7d".toUTF8, 1, true⟩).place
    "/p/src/b.css".text ⟨"b\x7b\x7d".toUTF8, 1, true⟩

/-! ## Packs behind changes -/

/-- A pack behind changes leaves the bytes that a forced pack writes.  It is preceded by a pack
that found no asset that was there and not up to date, or was forced; then files were saved,
each newer than all that were there, and deleted.  Each asset of which all inputs are still
there has the bytes then that it gets by a forced pack of the same files. -/
theorem pack_of_changes
    {entries : List (Setting × Setting)} {before packed changed after : Workspace}
    (hentries : packer.entries = .ok entries) (honly : ∀ entry ∈ entries, packer.OnlyRebases entry)
    (hseparate : packer.Separate before.files entries)
    (hfresh : force = true ∨ ∀ entry ∈ entries, packer.IsFresh before.files entry)
    (hpack : Runs (packer.pack none force) before (.ok ⟨⟩) packed)
    (hchanges : Relation.ReflTransGen (FileSystem.Change (packer.sparedPaths packed.files entries)
      (packer.lookedPaths packed.files.current entries)) packed.files changed.files)
    (hseparate' : packer.Separate changed.files entries)
    (hpack' : Runs (packer.pack none false) changed (.ok ⟨⟩) after) :
    ∀ entry ∈ entries,
      (∀ path, packer.Finds packed.files entry.2 path → changed.files.exists? path = true) →
        ∃ path bytes, packer.packedOn changed.files entry = .ok (path, bytes) ∧
          after.files.HasBytes path bytes ∧
          ∀ other forced : Workspace, other.files = changed.files →
            Runs (packer.pack none true) other (.ok ⟨⟩) forced →
              forced.files.HasBytes path bytes := by
  intro entry hentry hkept
  have hcurrent := upToDate_of_pack hentries honly hseparate hfresh hpack
  obtain ⟨path, bytes, hpacked, hbytes⟩ := hasBytes_of_pack_of_changed hentries honly hseparate'
    hcurrent (changed_of_changes hchanges) hpack' entry hentry hkept
  refine ⟨path, bytes, hpacked, hbytes, fun other forced hfiles hforced => ?_⟩
  obtain ⟨path', bytes', hpacked', hbytes'⟩ :=
    hasBytes_of_forced_pack hentries honly (hfiles ▸ hseparate') hforced entry hentry
  rw [hfiles, hpacked] at hpacked'
  obtain ⟨rfl, rfl⟩ := Prod.mk.inj (Except.ok.inj hpacked')
  exact hbytes'

/-- A style sheet that is saved in the directory that is searched first takes the place of the
one of which the asset was made. -/
theorem pack_of_changes_of_shadowed :
    ∃ packed changed after : Workspace,
      Runs ((bundling ["a.css".text]).pack none false) { files := sourceSheets } (.ok ⟨⟩) packed ∧
      changed.files =
        packed.files.place "/p/lib/a.css".text ⟨"b\x7b\x7d".toUTF8, 5000, true⟩ ∧
      Runs ((bundling ["a.css".text]).pack none false) changed (.ok ⟨⟩) after ∧
      ∃ path bytes,
        (bundling ["a.css".text]).packedOn changed.files siteEntry = .ok (path, bytes) ∧
          after.files.HasBytes path bytes ∧
          ∀ other forced : Workspace, other.files = changed.files →
            Runs ((bundling ["a.css".text]).pack none true) other (.ok ⟨⟩) forced →
              forced.files.HasBytes path bytes := by
  let packer : Packer := bundling ["a.css".text]
  let before : Workspace := { files := sourceSheets }
  let packed : Workspace := ((packer.pack none false).run.run before).2
  let file : File := ⟨"b\x7b\x7d".toUTF8, 5000, true⟩
  let changed : Workspace :=
    { packed with files := packed.files.place "/p/lib/a.css".text file }
  obtain ⟨hpack, hcurrent, hreferences, holder, hapart, hplain⟩ :
      ((packer.pack none false).run.run before).1.isOk = true ∧
        packed.files.current = "/p".text ∧ lacksReferences packed.files = true ∧
        packed.files.files.all (fun entry => decide (entry.2.time < file.time)) = true ∧
        (∀ other ∈ [[], "/p/out/site.css".text],
          packed.files.key other ≠ packed.files.key "/p/lib/a.css".text) ∧
        ∀ other ∈ [[], "/p/out/site.css".text, "/p/lib/a.css".text, "/p/src/a.css".text],
          packed.files.key other ∈
            ancestors (Path.dirname (packed.files.key "/p/lib/a.css".text)) →
              packed.files.isDirectory other = true := by
    decide +kernel
  obtain ⟨hpack', hreferences', hplain', hthere⟩ :
      ((packer.pack none false).run.run changed).1.isOk = true ∧
        lacksReferences changed.files = true ∧
        changed.files.isDirectory "/p/out/site.css".text = false ∧
        ∀ path ∈ ["/p/lib/a.css".text, "/p/src/a.css".text],
          changed.files.exists? path = true := by
    decide +kernel
  have honly : ∀ entry ∈ [siteEntry], packer.OnlyRebases entry := by
    simp only [List.mem_singleton, forall_eq]
    exact onlyRebases_siteEntry
  have hseparate : packer.Separate before.files [siteEntry] :=
    separate_siteEntry rfl (by decide +kernel) (by decide +kernel)
  have hseparate' : packer.Separate changed.files [siteEntry] :=
    separate_siteEntry hcurrent hreferences' hplain'
  have hfresh : false = true ∨ ∀ entry ∈ [siteEntry], packer.IsFresh before.files entry := by
    refine .inr fun entry hentry => .inl fun path hpath => ?_
    obtain rfl := List.mem_singleton.mp hentry
    obtain rfl := eq_of_isOutput hpath
    decide +kernel
  have hsave : FileSystem.Change (packer.sparedPaths packed.files [siteEntry])
      (packer.lookedPaths packed.files.current [siteEntry]) packed.files changed.files := by
    refine .save packed.files "/p/lib/a.css".text file ?_ ?_ ?_
    · exact fun entry hentry => of_decide_eq_true (List.all_eq_true.mp holder entry hentry)
    · exact fun other hother => hapart other (mem_of_sparedPaths hcurrent hreferences hother)
    · rintro other (hother | ⟨entry, hentry, hother⟩)
      · have hmem := mem_of_sparedPaths hcurrent hreferences hother
        exact hplain other (List.mem_append_left ["/p/lib/a.css".text, "/p/src/a.css".text] hmem)
      · obtain rfl := List.mem_singleton.mp hentry
        have hmem := mem_of_searchesFor (hcurrent ▸ hother)
        exact hplain other (List.mem_append_right [[], "/p/out/site.css".text] hmem)
  have hentries : packer.entries = .ok [siteEntry] := rfl
  have hbytes := pack_of_changes hentries honly hseparate hfresh (runs_of_isOk hpack)
    (.single hsave) hseparate' (runs_of_isOk hpack') siteEntry List.mem_cons_self
    fun path ⟨elements, element, plan, helements, helement, hplan, hpath⟩ =>
      hthere path (mem_of_searchesFor ⟨elements, element, plan, helements, helement, hplan,
        hcurrent ▸ (of_foundPath hpath).1⟩)
  exact ⟨packed, changed, _, runs_of_isOk hpack, rfl, runs_of_isOk hpack', hbytes⟩

/-- An asset whose second input is deleted keeps what was made of it, while a forced pack
leaves it out. -/
theorem exists_kept_input :
    ∃ packed lost after forced : Workspace,
      Runs ((bundling ["a.css".text, "b.css".text]).pack none false) { files := sourceSheets }
        (.ok ⟨⟩) packed ∧
      lost = { packed with files := packed.files.remove "/p/src/b.css".text } ∧
      Runs ((bundling ["a.css".text, "b.css".text]).pack none false) lost (.ok ⟨⟩) after ∧
      Runs ((bundling ["a.css".text, "b.css".text]).pack none true) lost (.ok ⟨⟩) forced ∧
      (after.files.file? "/p/out/site.css".text).map (·.bytes) =
        Utf8.encode? "a\x7b\x7d\nb\x7b\x7d".text ∧
      (forced.files.file? "/p/out/site.css".text).map (·.bytes) =
        Utf8.encode? "a\x7b\x7d".text := by
  let packer : Packer := bundling ["a.css".text, "b.css".text]
  let packed : Workspace := ((packer.pack none false).run.run { files := sourceSheets }).2
  let lost : Workspace := { packed with files := packed.files.remove "/p/src/b.css".text }
  let after := (packer.pack none false).run.run lost
  let forced := (packer.pack none true).run.run lost
  obtain ⟨hpack, hpack', hforced, hkept, hleft⟩ :
      ((packer.pack none false).run.run { files := sourceSheets }).1.isOk = true ∧
        after.1.isOk = true ∧ forced.1.isOk = true ∧
        (after.2.files.file? "/p/out/site.css".text).map (·.bytes) =
          Utf8.encode? "a\x7b\x7d\nb\x7b\x7d".text ∧
        (forced.2.files.file? "/p/out/site.css".text).map (·.bytes) =
          Utf8.encode? "a\x7b\x7d".text := by
    decide +kernel
  exact ⟨packed, lost, after.2, forced.2, runs_of_isOk hpack, rfl, runs_of_isOk hpack',
    runs_of_isOk hforced, hkept, hleft⟩

end UrlRebase.Packer
