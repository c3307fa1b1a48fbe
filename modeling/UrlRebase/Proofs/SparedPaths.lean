import UrlRebase.Proofs.PackedSources
import UrlRebase.Proofs.SteadyPacking

/-!
# Paths that packing leaves alone

Packing writes the assets, their maps and the copies of files, and makes the directories above
them.  Every path apart from these shows the same afterwards.  So as long as nothing that an
asset is built from is written to, an asset is built on the files with which the pack started,
whatever was packed before it, and the pack writes it with its bytes on these files or finds
none of its inputs newer.
-/

namespace UrlRebase

open Work Workspace

/-! ## Files that are written -/

namespace FileSystem

variable {kept : Set Text} {files files' after : FileSystem} {target path : Text}

/-- Whether a path is neither written to with a file nor with the directories above the file,
unless it is a directory already. -/
structure Apart (files : FileSystem) (target path : Text) : Prop where
  key : files.key path ≠ files.key target
  directory : ∀ above,
    above = Path.dirname (files.key target) ∨ above = files.key (Path.dirname target) →
      files.key path ∈ ancestors above → files.isDirectory path = true

instance (files : FileSystem) (target path : Text) : Decidable (files.Apart target path) :=
  decidable_of_iff
    (files.key path ≠ files.key target ∧
      ∀ above ∈ [Path.dirname (files.key target), files.key (Path.dirname target)],
        files.key path ∈ ancestors above → files.isDirectory path = true)
    ⟨fun ⟨hkey, hdirectory⟩ => ⟨hkey, by simpa using hdirectory⟩,
      fun ⟨hkey, hdirectory⟩ => ⟨hkey, by simpa using hdirectory⟩⟩

theorem Apart.congr
    (h : files.Apart target path) (hsame : files.SameAt kept files') (hpath : path ∈ kept) :
    files'.Apart target path where
  key := by
    rw [key_congr hsame.current, key_congr hsame.current]
    exact h.key
  directory := by
    rw [key_congr hsame.current, key_congr hsame.current, key_congr hsame.current,
      hsame.directory path hpath]
    exact h.directory

/-- What is no directory stays apart whatever is written. -/
theorem Apart.congr_of_plain
    (h : files.Apart target path) (hcurrent : files'.current = files.current)
    (hplain : files.isDirectory path = false) : files'.Apart target path where
  key := by
    rw [key_congr hcurrent, key_congr hcurrent]
    exact h.key
  directory := by
    rw [key_congr hcurrent, key_congr hcurrent, key_congr hcurrent]
    intro above habove hmem
    rw [h.directory above habove hmem] at hplain
    cases hplain

theorem contains_addDirectories (directories added : List Text) (directory : Text) :
    (addDirectories directories added).contains directory =
      (directories.contains directory || added.contains directory) := by
  rw [Bool.eq_iff_iff]
  simp only [addDirectories, List.contains_iff_mem, List.mem_append, List.mem_filter,
    Bool.or_eq_true]
  grind

theorem or_contains_eq_left
    {isThere : Bool} {added : List Text} {directory : Text}
    (h : directory ∈ added → isThere = true) :
    (isThere || added.contains directory) = isThere := by
  cases isThere with
  | true => rfl
  | false => simpa using h

theorem sameAt_makeDirectories
    {directory : Text}
    (h : ∀ path ∈ kept, files.key path ∈ ancestors (files.key directory) →
      files.isDirectory path = true) :
    SameAt kept files (files.makeDirectories directory) where
  current := rfl
  file _ _ := rfl
  directory := by
    intro path hpath
    exact (contains_addDirectories _ _ _).trans (or_contains_eq_left (h path hpath))

theorem isDirectory_place (files : FileSystem) (target : Text) (file : File) (path : Text) :
    (files.place target file).isDirectory path =
      (files.isDirectory path ||
        (ancestors (Path.dirname (files.key target))).contains (files.key path)) :=
  contains_addDirectories _ _ _

theorem sameAt_of_write
    {bytes : ByteArray} (h : ∀ path ∈ kept, files.Apart target path)
    (hwrite : files.write target bytes = .ok after) : SameAt kept files after := by
  unfold write at hwrite
  split at hwrite
  · cases hwrite
  · obtain rfl := Except.ok.inj hwrite
    refine ⟨rfl, fun path hpath => file?_place_of_ne _ (h path hpath).key, fun path hpath => ?_⟩
    exact (contains_addDirectories _ _ _).trans
      (or_contains_eq_left ((h path hpath).directory _ (.inl rfl)))

def HasBytes (files : FileSystem) (path : Text) (bytes : ByteArray) : Prop :=
  (files.file? path).map (·.bytes) = some bytes

theorem HasBytes.of_sameAt
    {bytes : ByteArray} (h : files.HasBytes path bytes) (hsame : files.SameAt kept files')
    (hpath : path ∈ kept) : files'.HasBytes path bytes := by
  rw [HasBytes, hsame.file path hpath]
  exact h

theorem HasBytes.of_kept
    {bytes : ByteArray} (h : files.HasBytes path bytes)
    (hkept : ∀ path file, files.file? path = some file → files'.file? path = some file) :
    files'.HasBytes path bytes := by
  obtain ⟨file, hfile, hbytes⟩ := Option.map_eq_some_iff.mp h
  exact Option.map_eq_some_iff.mpr ⟨file, hkept path file hfile, hbytes⟩

end FileSystem

open FileSystem

/-! ## Steps that write -/

/-- Whether a workspace is another that shows the same at some paths, and in which the same
is known about files. -/
structure Workspace.Spares (kept : Set Text) (before after : Workspace) : Prop where
  same : before.files.SameAt kept after.files
  resolutions : after.resolutions = before.resolutions
  names : after.names = before.names

namespace Workspace

variable {paths kept : Set Text} {files : FileSystem} {before after : Workspace}

theorem Knows.of_spares
    (h : before.Knows paths files) (hspares : before.Spares kept after) (hpaths : paths ⊆ kept) :
    after.Knows paths files :=
  ⟨h.same.trans (hspares.same.mono hpaths), hspares.resolutions ▸ h.resolutions,
    hspares.names ▸ h.names⟩

theorem Knows.namesDigests (h : before.Knows paths files) : before.NamesDigests := by
  intro path name hname
  have hcontent := h.names path name hname
  obtain ⟨bytes, -, hbytes⟩ := Except.map_eq_ok.mp hcontent
  exact ⟨bytes, hbytes.symm⟩

end Workspace

section Writing

variable {kept : Set Text} {before after : Workspace} {path : Text}

theorem spares_of_makeDirectories
    (h : ∀ other ∈ kept, before.files.Apart path other)
    (hruns : Runs (makeDirectories (Path.dirname path)) before (.ok ⟨⟩) after) :
    before.Spares kept after := by
  obtain ⟨-, rfl⟩ := Prod.mk.inj hruns
  exact ⟨sameAt_makeDirectories fun other hother => (h other hother).directory _ (.inr rfl),
    rfl, rfl⟩

theorem spares_of_writeText
    {text : Text} (h : ∀ other ∈ kept, before.files.Apart path other)
    (hruns : Runs (writeText path text) before (.ok ⟨⟩) after) : before.Spares kept after := by
  obtain ⟨bytes, hbytes, hwrite⟩ := Packer.exists_of_writeText hruns
  have hwritten : Runs (writeText path text) before (.ok ⟨⟩)
      { before with
        files := after.files
        written := before.written ++ [after.files.key path] } := by
    unfold writeText
    rw [hbytes]
    exact runs_write_of_ok hwrite
  have hafter := (Prod.mk.inj (hruns.symm.trans hwritten)).2
  refine ⟨sameAt_of_write h hwrite, ?_, ?_⟩
  · rw [hafter]
  · rw [hafter]

end Writing

namespace Packer

variable {packer : Packer} {paths kept : Set Text} {files : FileSystem}

/-! ## Assets that are written -/

def finished (name text : Text) : Option SourceMap → Text
  | none => text
  | some _ => text ++ trailer (Path.basename name ++ ".map".text)

/-- An asset that is written was built where its directory was made, and its style sheet was
written behind its map. -/
theorem exists_build_of_write
    {name path : Text} {inputs : List Input} {before after : Workspace}
    (h : Runs (packer.write name inputs path) before (.ok ⟨⟩) after) :
    ∃ text map built mapped,
      Runs (packer.build name inputs path)
        { before with files := before.files.makeDirectories (Path.dirname path) }
        (.ok (text, map)) built ∧
      (∀ whole, map = some whole → ∃ printed, whole.print = .ok printed ∧
        Runs (writeText (path ++ ".map".text) printed) built (.ok ⟨⟩) mapped) ∧
      Runs (writeText path (finished name text map)) mapped (.ok ⟨⟩) after := by
  unfold write at h
  obtain ⟨_, made, hmade, h⟩ := exists_of_bind h
  obtain ⟨-, rfl⟩ := Prod.mk.inj hmade
  obtain ⟨⟨text, map⟩, built, hbuilt, h⟩ := exists_of_bind h
  cases map with
  | none => exact ⟨text, none, built, built, hbuilt, by simp, h⟩
  | some map =>
      obtain ⟨printed, hprinted, h⟩ := exists_of_lift_bind h
      obtain ⟨_, mapped, hmapped, h⟩ := exists_of_bind h
      refine ⟨text, some map, built, mapped, hbuilt, ?_, h⟩
      intro whole hwhole
      obtain rfl := Option.some.inj hwhole
      exact ⟨printed, Except.mapError_eq_ok.mp hprinted, hmapped⟩

def bytesOf (packer : Packer) (files : FileSystem) (name : Text) (inputs : List Input)
    (path : Text) : Except Failure ByteArray := do
  let (text, map) ← outcome files (packer.build name inputs path)
  match Utf8.encode? (finished name text map) with
  | none => throw .unencodable
  | some bytes => return bytes

/-- Where an asset goes and with which bytes, among some files. -/
def packedOn (packer : Packer) (files : FileSystem) (entry : Setting × Setting) :
    Except Failure (Text × ByteArray) := do
  let inputs ← packer.inputsOn files entry.2
  let name ← fileName entry.1
  let path ← packer.outputPath files.current name
  return (path, ← packer.bytesOf files name inputs path)

theorem bytesOf_eq_ok
    {name path text : Text} {map : Option SourceMap} {inputs : List Input} {bytes : ByteArray}
    (hbuild : outcome files (packer.build name inputs path) = .ok (text, map))
    (hbytes : Utf8.encode? (finished name text map) = some bytes) :
    packer.bytesOf files name inputs path = .ok bytes :=
  Except.bind_eq_ok.mpr ⟨(text, map), hbuild, by simp only [hbytes]; rfl⟩

theorem of_writeSheet
    {name path : Text} {inputs : List Input} {sheet : Sheet} {before after : Workspace}
    (hinputs : packer.DrawsWithin paths files inputs) (hknows : before.Knows paths files)
    (hpaths : paths ⊆ kept)
    (hkept : ∀ other ∈ kept,
      before.files.Apart path other ∧ before.files.Apart (path ++ ".map".text) other)
    (hruns : Runs (packer.writeSheet name inputs path) before (.ok sheet) after) :
    after.Knows paths files ∧ before.files.SameAt kept after.files ∧
      ∃ bytes, packer.bytesOf files name inputs path = .ok bytes ∧
        after.files.HasBytes path bytes := by
  unfold writeSheet at hruns
  obtain ⟨_, made, hmade, hruns⟩ := exists_of_bind hruns
  have hspares := spares_of_makeDirectories (fun other hother => (hkept other hother).1) hmade
  obtain ⟨workspace, _, hget, hruns⟩ := exists_of_bind hruns
  obtain ⟨-, rfl⟩ := Prod.mk.inj hget
  obtain ⟨⟨text, map⟩, built, hbuilt, hruns⟩ := exists_of_bind hruns
  obtain ⟨hbuild, hknows, hfiles⟩ :=
    (gives_build hinputs).eq_of_runs (hknows.of_spares hspares hpaths) hbuilt
  have hsame : before.files.SameAt kept built.files := hfiles ▸ hspares.same
  have hapart {between : Workspace} (hsame : before.files.SameAt kept between.files) :
      ∀ other ∈ kept,
        between.files.Apart path other ∧ between.files.Apart (path ++ ".map".text) other :=
    fun other hother => ⟨(hkept other hother).1.congr hsame hother,
      (hkept other hother).2.congr hsame hother⟩
  -- Whatever is written before it, the asset itself is written last.
  have hlast {between : Workspace} (hbetween : built.Spares kept between)
      (hruns : Runs (writeText path (finished name text map)) between (.ok ⟨⟩) after) :
      after.Knows paths files ∧ before.files.SameAt kept after.files ∧
        ∃ bytes, packer.bytesOf files name inputs path = .ok bytes ∧
          after.files.HasBytes path bytes := by
    have hsame' := hsame.trans hbetween.same
    have hspares := spares_of_writeText (fun other hother => (hapart hsame' other hother).1) hruns
    obtain ⟨bytes, hbytes, hwrite⟩ := exists_of_writeText hruns
    exact ⟨(hknows.of_spares hbetween hpaths).of_spares hspares hpaths, hsame'.trans hspares.same,
      bytes, bytesOf_eq_ok ((gives_build hinputs).outcome_eq.trans hbuild.symm) hbytes, (FileSystem.file?_of_write hwrite).1⟩
  simp only at hruns
  split at hruns
  · obtain ⟨_, _, hwritten, hruns⟩ := exists_of_bind hruns
    obtain ⟨-, rfl⟩ := eq_of_pure hruns
    exact hlast ⟨.refl _ _, rfl, rfl⟩ hwritten
  · obtain ⟨printed, -, hruns⟩ := exists_of_lift_bind hruns
    obtain ⟨_, mapped, hmapped, hruns⟩ := exists_of_bind hruns
    obtain ⟨_, _, hwritten, hruns⟩ := exists_of_bind hruns
    obtain ⟨-, rfl⟩ := eq_of_pure hruns
    exact hlast (spares_of_writeText (fun other hother => (hapart hsame other hother).2) hmapped)
      hwritten

/-! ## Assets that are passed over -/

theorem exists_time_of_anyNewer
    {time : Int} {watched : List (Except Failure Text)} {path : Text}
    (h : Input.anyNewer files time watched = .ok false) (hpath : .ok path ∈ watched) :
    ∃ changed, files.timeOf path = .ok changed ∧ changed ≤ time := by
  induction watched with
  | nil => cases hpath
  | cons first rest ih =>
      cases first with
      | error error => cases h
      | ok other =>
          unfold Input.anyNewer at h
          split at h
          · cases h
          · rename_i changed hchanged
            split at h
            · cases h
            · rename_i hnewer
              rcases List.mem_cons.mp hpath with hother | hrest
              · obtain rfl := Except.ok.inj hother
                exact ⟨changed, hchanged, not_lt.mp hnewer⟩
              · exact ih h hrest

theorem exists_time_of_anyIsNewer
    {time : Int} {inputs : List Input} (h : Input.anyIsNewer files time inputs = .ok false) :
    ∀ input ∈ inputs, ∀ path, .ok path ∈ input.watchedPaths files →
      ∃ changed, files.timeOf path = .ok changed ∧ changed ≤ time := by
  induction inputs with
  | nil => simp
  | cons input rest ih =>
      obtain ⟨isNewer, hnewer, h⟩ := Except.bind_eq_ok.mp h
      cases isNewer with
      | true => cases Except.ok.inj h
      | false =>
          rw [List.forall_mem_cons]
          exact ⟨fun _ => exists_time_of_anyNewer hnewer, ih h⟩

def IsOutput (packer : Packer) (current : Text) (entry : Setting × Setting) (path : Text) : Prop :=
  ∃ name, fileName entry.1 = .ok name ∧ packer.outputPath current name = .ok path

/-- Whether an asset is there and no input that is found for it among some files is newer. -/
def IsPassedOver (packer : Packer) (files : FileSystem) (entry : Setting × Setting) : Prop :=
  ∃ path time inputs, packer.IsOutput files.current entry path ∧
    files.timeOf path = .ok time ∧ files.exists? path = true ∧ time ≠ 0 ∧
    packer.inputsOn files entry.2 = .ok inputs ∧
    ∀ input ∈ inputs, ∃ changed, files.timeOf input.path = .ok changed ∧ changed ≤ time

def WritesTo (packer : Packer) (current : Text) (entry : Setting × Setting) (target : Text) :
    Prop :=
  ∃ path, packer.IsOutput current entry path ∧ (target = path ∨ target = path ++ ".map".text)

/-- The paths where the inputs of an asset are looked for, and those to which the references
of the inputs that are found may lead. -/
def consulted (packer : Packer) (files : FileSystem) (entry : Setting × Setting) : Set Text :=
  {path | packer.SearchesFor files.current entry.2 path ∨
    ∃ inputs, packer.inputsOn files entry.2 = .ok inputs ∧
      ∃ input ∈ inputs, packer.Refers files input path}

/-- Whether all inputs that an asset can have are only rebased. -/
def OnlyRebases (packer : Packer) (entry : Setting × Setting) : Prop :=
  ∀ elements, elementsOf entry.2 = .ok elements → ∀ element ∈ elements, ∀ plan,
    packer.planOf element = .ok plan → ∃ registration, plan.processors = [registration] ∧
      Processor.find packer.tools registration = .ok .rebase

theorem of_foundBelow
    {name path : Text} {roots rest : List Setting} (hroots : packer.search.elements? = some roots)
    (hrest : rest ⊆ roots) (h : packer.foundBelow files name rest = .ok (some path)) :
    packer.Searches files.current name path ∧ files.exists? path = true := by
  induction rest with
  | nil => cases h
  | cons root rest ih =>
      obtain ⟨hroot, hrest⟩ := List.cons_subset.mp hrest
      obtain ⟨text, htext, h⟩ := Except.bind_eq_ok.mp h
      simp only at h
      split at h
      · rename_i hthere
        obtain rfl := Option.some.inj (Except.ok.inj h)
        exact ⟨⟨roots, root, text, hroots, hroot, htext, rfl⟩, hthere⟩
      · exact ih hrest h

theorem of_foundPath
    {name path : Text} (h : packer.foundPath files name = .ok (some path)) :
    packer.Searches files.current name path ∧ files.exists? path = true := by
  unfold foundPath at h
  split at h
  · cases h
  · rename_i roots hroots
    exact of_foundBelow hroots (List.Subset.refl roots) h

theorem mem_inputsOn_iff
    {list : Setting} {inputs : List Input} (h : packer.inputsOn files list = .ok inputs)
    {input : Input} :
    input ∈ inputs ↔ ∃ elements, elementsOf list = .ok elements ∧
      ∃ element ∈ elements, packer.inputOn files element = .ok (some input) := by
  obtain ⟨elements, helements, h⟩ := Except.bind_eq_ok.mp h
  obtain ⟨found, hfound, h⟩ := Except.bind_eq_ok.mp h
  obtain rfl := Except.ok.inj h
  rw [List.mem_filterMap]
  constructor
  · rintro ⟨input?, hmem, rfl⟩
    obtain ⟨element, helement, hinput⟩ :=
      Forall₂.exists_of_mem_right (Except.mapM_eq_ok_iff.mp hfound) hmem
    exact ⟨elements, helements, element, helement, hinput⟩
  · rintro ⟨elements', helements', element, helement, hinput⟩
    obtain rfl := Except.ok.inj (helements.symm.trans helements')
    obtain ⟨input?, hmem, hinput'⟩ :=
      Forall₂.exists_of_mem_left (Except.mapM_eq_ok_iff.mp hfound) helement
    exact ⟨input?, hmem, Except.ok.inj (hinput'.symm.trans hinput)⟩

theorem exists_plan_of_inputOn
    {element : Setting} {input : Input} (h : packer.inputOn files element = .ok (some input)) :
    ∃ plan, packer.planOf element = .ok plan ∧
      packer.foundPath files plan.name = .ok (some input.path) ∧
      input.processors = plan.processors := by
  obtain ⟨plan, hplan, h⟩ := Except.bind_eq_ok.mp h
  obtain ⟨path?, hpath, h⟩ := Except.bind_eq_ok.mp h
  have hat : plan.at? path? = some input := Except.ok.inj h
  unfold InputPlan.at? at hat
  split at hat
  · obtain rfl := Option.some.inj hat
    exact ⟨plan, hplan, hpath, rfl⟩
  · cases hat

/-- Each input that is found has a plan and is where it was found. -/
theorem exists_plan_of_inputsOn
    {list : Setting} {inputs : List Input} (h : packer.inputsOn files list = .ok inputs) :
    ∀ input ∈ inputs, ∃ elements element plan, elementsOf list = .ok elements ∧
      element ∈ elements ∧ packer.planOf element = .ok plan ∧
      packer.foundPath files plan.name = .ok (some input.path) ∧
      input.processors = plan.processors := by
  intro input hinput
  obtain ⟨elements, helements, element, helement, hinputOn⟩ := (mem_inputsOn_iff h).mp hinput
  obtain ⟨plan, hplan, hfound⟩ := exists_plan_of_inputOn hinputOn
  exact ⟨elements, element, plan, helements, helement, hplan, hfound⟩

theorem searchesFor_of_inputsOn
    {list : Setting} {inputs : List Input} (h : packer.inputsOn files list = .ok inputs) :
    ∀ input ∈ inputs, packer.SearchesFor files.current list input.path := by
  intro input hinput
  obtain ⟨elements, element, plan, helements, helement, hplan, hpath, -⟩ :=
    exists_plan_of_inputsOn h input hinput
  exact ⟨elements, element, plan, helements, helement, hplan, (of_foundPath hpath).1⟩

theorem OnlyRebases.isOnlyRebased
    {entry : Setting × Setting} {inputs : List Input} (honly : packer.OnlyRebases entry)
    (hinputs : packer.inputsOn files entry.2 = .ok inputs) :
    ∀ input ∈ inputs, packer.IsOnlyRebased input := by
  intro input hinput
  obtain ⟨elements, element, plan, helements, helement, hplan, -, hprocessors⟩ :=
    exists_plan_of_inputsOn hinputs input hinput
  rw [IsOnlyRebased, hprocessors]
  exact honly elements helements element helement plan hplan

/-- The paths where the inputs of an asset are looked for, and those to which the references
of the inputs that are found may lead when they come to be rebased. -/
def drawnOn (packer : Packer) (files : FileSystem) (entry : Setting × Setting) : Set Text :=
  {path | packer.SearchesFor files.current entry.2 path ∨
    ∃ inputs, packer.inputsOn files entry.2 = .ok inputs ∧
      ∃ input ∈ inputs, packer.Reaches files input path}

theorem drawsWithin_drawnOn
    {entry : Setting × Setting} {inputs : List Input}
    (hinputs : packer.inputsOn files entry.2 = .ok inputs) :
    packer.DrawsWithin (packer.drawnOn files entry) files inputs :=
  fun input hinput => ⟨.inl (searchesFor_of_inputsOn hinputs input hinput), fun _ hreaches =>
    .inr ⟨inputs, hinputs, input, hinput, hreaches⟩⟩

theorem drawnOn_subset_consulted
    {entry : Setting × Setting} (honly : packer.OnlyRebases entry) :
    packer.drawnOn files entry ⊆ packer.consulted files entry := by
  rintro path (hsearched | ⟨inputs, hinputs, input, hinput, hreaches⟩)
  · exact .inl hsearched
  · have hinputOnly := honly.isOnlyRebased hinputs input hinput
    exact .inr ⟨inputs, hinputs, input, hinput, refers_of_reaches hinputOnly hreaches⟩

end Packer

end UrlRebase
