import UrlRebase.Proofs.NamedSources
import UrlRebase.Proofs.StoredFiles

/-!
# What packed maps call the inputs

The map of an asset is written beside it and names each input by the way to it from there.
An input with a relative path is taken for a source of its own directory, though its path is
relative to the current one.  So the map names the inputs as long as their paths are
absolute, as they are with a base directory, or the inputs are in the current directory.
-/

namespace UrlRebase

open Work

namespace Packer

variable {packer : Packer}

theorem exists_of_writeText
    {path text : Text} {before after : Workspace}
    (h : Runs (writeText path text) before (.ok ⟨⟩) after) :
    ∃ bytes, Utf8.encode? text = some bytes ∧ before.files.write path bytes = .ok after.files := by
  unfold writeText at h
  cases hbytes : Utf8.encode? text with
  | none =>
      rw [hbytes] at h
      cases (Prod.mk.inj h).1
  | some bytes =>
      rw [hbytes] at h
      cases hwrite : before.files.write path bytes with
      | error error =>
          have hfailed := (runs_write_of_error hwrite).symm.trans h
          cases (Prod.mk.inj hfailed).1
      | ok files =>
          have hwritten := (runs_write_of_ok hwrite).symm.trans h
          rw [← (Prod.mk.inj hwritten).2]
          exact ⟨bytes, rfl, hwrite⟩

/-- The map of an asset that is written is the one with which the asset is built. -/
theorem file?_of_writeAsset
    {name path : Text} {inputs : List Input} {before after : Workspace}
    (hcurrent : Path.isAbsolute before.files.current = true)
    (hwrite : Runs (packer.write name inputs path) before (.ok ⟨⟩) after) :
    ∃ made text map built, made.files.current = before.files.current ∧
      Runs (packer.build name inputs path) made (.ok (text, map)) built ∧
      ∀ whole, map = some whole → ∃ printed bytes, whole.print = .ok printed ∧
        Utf8.encode? printed = some bytes ∧
        (after.files.file? (path ++ ".map".text)).map (·.bytes) = some bytes := by
  unfold write at hwrite
  obtain ⟨_, made, hmade, hwrite⟩ := exists_of_bind hwrite
  have hhere := (blind_makeDirectories _).current hmade
  obtain ⟨⟨text, map⟩, built, hbuilt, hwrite⟩ := exists_of_bind hwrite
  refine ⟨made, text, map, built, hhere, hbuilt, ?_⟩
  rintro whole rfl
  obtain ⟨printed, hprinted, hwrite⟩ := exists_of_lift_bind hwrite
  obtain ⟨_, mapped, hmapped, hwrite⟩ := exists_of_bind hwrite
  obtain ⟨bytes, hbytes, hfirst⟩ := exists_of_writeText hmapped
  obtain ⟨_, -, hsecond⟩ := exists_of_writeText hwrite
  refine ⟨printed, bytes, Except.mapError_eq_ok.mp hprinted, hbytes, ?_⟩
  have hmappedHere : mapped.files.current = before.files.current :=
    ((blind_writeText _ _).current hmapped).trans
      (((packer.blind_build _ _ _).current hbuilt).trans hhere)
  have hkey : mapped.files.key (path ++ ".map".text) ≠ mapped.files.key path := by
    rw [← hmappedHere] at hcurrent
    exact fun h => Path.trail_append_ne hcurrent path ((FileSystem.key_eq_iff hcurrent).mp h)
  rw [(FileSystem.file?_of_write hsecond).2 _ hkey]
  exact (FileSystem.file?_of_write hfirst).1

/-! ## Inputs with absolute paths -/

theorem isAbsolute_fromBase
    {current : Text} (hcurrent : Path.isAbsolute current = true) (hbase : packer.base ≠ [])
    (path : Text) : Path.isAbsolute (packer.fromBase current path) = true := by
  unfold fromBase
  split
  · rename_i h
    exact h.resolve_right hbase
  · exact Path.isAbsolute_absolute hcurrent _

section Found

variable (hbase : packer.base ≠ [])
include hbase

theorem isAbsolute_of_findBelow
    {name path : Text} {roots : List Setting} {before after : Workspace}
    (hcurrent : Path.isAbsolute before.files.current = true)
    (h : Runs (packer.findBelow name roots) before (.ok (some path)) after) :
    Path.isAbsolute path = true := by
  induction roots generalizing before with
  | nil => cases (eq_of_pure h).1
  | cons root rest ih =>
      unfold findBelow at h
      obtain ⟨current, _, hhere, h⟩ := exists_of_bind h
      obtain ⟨rfl, rfl⟩ := eq_of_current hhere
      obtain ⟨root, -, h⟩ := exists_of_lift_bind h
      obtain ⟨isThere, between, hthere, h⟩ := exists_of_bind h
      split at h
      · obtain ⟨hpath, -⟩ := eq_of_pure h
        obtain rfl := Option.some.inj hpath
        exact Path.isAbsolute_join (isAbsolute_fromBase hcurrent hbase root) name
      · rw [← (blind_exists? _).current hthere] at hcurrent
        exact ih hcurrent h

theorem isAbsolute_of_inputOf
    {element : Setting} {input : Input} {before after : Workspace}
    (hcurrent : Path.isAbsolute before.files.current = true)
    (h : Runs (packer.inputOf element) before (.ok (some input)) after) :
    Path.isAbsolute input.path = true := by
  unfold inputOf at h
  obtain ⟨⟨spec, depends⟩, -, h⟩ := exists_of_lift_bind h
  obtain ⟨names, -, h⟩ := exists_of_lift_bind h
  obtain ⟨_, -, h⟩ := exists_of_lift_bind h
  obtain ⟨path?, between, hfound, h⟩ := exists_of_bind h
  unfold inputPath? at hfound
  split at h
  · obtain ⟨hinput, -⟩ := eq_of_pure h
    obtain rfl := Option.some.inj hinput
    split at hfound
    · cases (Prod.mk.inj hfound).1
    · exact isAbsolute_of_findBelow hbase hcurrent hfound
  · obtain ⟨_, _, -, h⟩ := exists_of_bind h
    cases (eq_of_pure h).1

/-- With a base directory inputs are found under absolute paths. -/
theorem isAbsolute_of_inputsOf
    {list : Setting} {inputs : List Input} {before after : Workspace}
    (hcurrent : Path.isAbsolute before.files.current = true)
    (h : Runs (packer.inputsOf list) before (.ok inputs) after) :
    ∀ input ∈ inputs, Path.isAbsolute input.path = true := by
  unfold inputsOf at h
  extract_lets next at h
  have hnext {elements : List Setting} (h : Runs (next elements) before (.ok inputs) after) :
      ∀ input ∈ inputs, Path.isAbsolute input.path = true := by
    obtain ⟨found, _, hfound, h⟩ := exists_of_bind h
    obtain ⟨rfl, -⟩ := eq_of_pure h
    intro input hinput
    obtain ⟨element?, helement, hsome⟩ := List.mem_filterMap.mp hinput
    obtain ⟨element, -, from', to', hruns, hhere⟩ :=
      Blind.exists_of_mem_mapM packer.blind_inputOf hfound helement
    rw [id_eq] at hsome
    subst hsome
    rw [← hhere] at hcurrent
    exact isAbsolute_of_inputOf hbase hcurrent hruns
  split at h
  · rw [pure_bind] at h
    exact hnext h
  · split at h
    · obtain ⟨_, _, hthrown, -⟩ := exists_of_bind h
      cases hthrown
    · rw [pure_bind] at h
      exact hnext h

end Found

/-! ## Names of inputs -/

/-- Whether a name in the map of an output means a path: joined onto the directory of the
output it leads to the place of the path.  It has the absolute path as its shortest spelling
then, unless output and path start with different numbers of slashes. -/
structure Calls (files : FileSystem) (output name path : Text) : Prop where
  place : files.key (Path.join (Path.dirname (Path.absolute files.current output)) name) =
    files.key path
  spelling : Path.rootMark (Path.absolute files.current output) =
      Path.rootMark (Path.absolute files.current path) →
    Path.normalize (Path.join (Path.dirname (Path.absolute files.current output)) name) =
      Path.absolute files.current path

theorem calls_nameBeside
    {files : FileSystem} (hcurrent : Path.isAbsolute files.current = true) {output path : Text}
    (hplaced : Path.isAbsolute path = true ∨
      Path.dirname (Path.absolute files.current path) = Path.normalize files.current) :
    Calls files output (nameBeside files.current output path) path := by
  have hown : Path.trail files.current (Path.absolute files.current
      (Path.join (Path.dirname (Path.absolute files.current path)) path)) =
      Path.trail files.current path :=
    (Path.trail_absolute hcurrent _).trans (Path.trail_join_dirname hcurrent hplaced)
  constructor
  · rw [FileSystem.key_eq_iff hcurrent, nameBeside,
      Path.trail_join_relative hcurrent (Path.isAbsolute_dirname hcurrent output), hown]
  · intro hroot
    rw [Path.rootMark_absolute hcurrent, Path.rootMark_absolute hcurrent] at hroot
    rw [nameBeside, Path.normalize_join_relative hcurrent, hown, hroot,
      Path.absolute_eq_rooted hcurrent]

/-- The map that is written beside an asset whose inputs are only rebased names all its inputs
and nothing else, if there is a base directory, or each input has an absolute path or is in
the current directory. -/
theorem sources_of_write
    {name path : Text} {list : Setting} {inputs : List Input} {start before after : Workspace}
    (hcurrent : Path.isAbsolute before.files.current = true)
    (hmaps : packer.options.sourceMap = true)
    (hfound : Runs (packer.inputsOf list) start (.ok inputs) before) (hsome : inputs ≠ [])
    (hinputs : ∀ input ∈ inputs, packer.IsOnlyRebased input)
    (hplaced : packer.base ≠ [] ∨ ∀ input ∈ inputs, Path.isAbsolute input.path = true ∨
      Path.dirname (Path.absolute before.files.current input.path) =
        Path.normalize before.files.current)
    (hwrite : Runs (packer.write name inputs path) before (.ok ⟨⟩) after) :
    ∃ map printed bytes, SourceMap.print map = .ok printed ∧ Utf8.encode? printed = some bytes ∧
      (after.files.file? (path ++ ".map".text)).map (·.bytes) = some bytes ∧ map.root = .null ∧
      (∀ source ∈ map.sources, ∃ input ∈ inputs, Calls before.files path source input.path) ∧
      ∀ input ∈ inputs, ∃ source ∈ map.sources, Calls before.files path source input.path := by
  have hplaced : ∀ input ∈ inputs, Path.isAbsolute input.path = true ∨
      Path.dirname (Path.absolute before.files.current input.path) =
        Path.normalize before.files.current := by
    rcases hplaced with hbase | hplaced
    · rw [(packer.blind_inputsOf list).current hfound] at hcurrent
      exact fun input hinput => .inl (isAbsolute_of_inputsOf hbase hcurrent hfound input hinput)
    · exact hplaced
  obtain ⟨made, text, map?, built, hhere, hbuilt, hwritten⟩ := file?_of_writeAsset hcurrent hwrite
  obtain ⟨map, rfl, hroot, hlisted⟩ := sources_of_build hmaps hsome hinputs hbuilt
  obtain ⟨printed, bytes, hprinted, hbytes, hfile⟩ := hwritten map rfl
  rw [hhere] at hlisted
  refine ⟨map, printed, bytes, hprinted, hbytes, hfile, hroot, ?_, ?_⟩
  · intro source hsource
    obtain ⟨input, hinput, rfl⟩ := (hlisted source).mp hsource
    exact ⟨input, hinput, calls_nameBeside hcurrent (hplaced input hinput)⟩
  · intro input hinput
    exact ⟨_, (hlisted _).mpr ⟨input, hinput, rfl⟩,
      calls_nameBeside hcurrent (hplaced input hinput)⟩

/-! ## With a base directory and without one -/

/-- Saves the text of an asset and its map, whose mappings are given as they are written. -/
def save (name path text : Text) (map : SourceMap) (written : Text) : Work Unit := do
  Work.writeText (path ++ ".map".text) (map.withMappings written).print
  Work.writeText path (text ++ trailer (Path.basename name ++ ".map".text))

/-- Whether an asset is built to a text with a map of one mapping, from the start of the text
to the start of a source, and both can be saved. -/
def savesStart (packer : Packer) (name : Text) (inputs : List Input) (path : Text)
    (made : Workspace) : Bool :=
  match (packer.build name inputs path).run.run made with
  | (.ok (text, some map), built) =>
      map.mappings = [⟨⟨0, 0⟩, some 0, some 0, some 0, none⟩] &&
        ((save name path text map "AAAA".text).run.run built).1.isOk
  | _ => false

theorem exists_runs_write
    (packer : Packer) (name : Text) (inputs : List Input) (path : Text) (before : Workspace)
    (h : packer.savesStart name inputs path
      { before with files := before.files.makeDirectories (Path.dirname path) } = true) :
    ∃ after, Runs (packer.write name inputs path) before (.ok ⟨⟩) after := by
  unfold savesStart at h
  split at h
  · rename_i text map built hbuild
    rw [Bool.and_eq_true, decide_eq_true_iff] at h
    have hencode : Mapping.encode map.mappings = .ok "AAAA".text := by
      rw [h.1]
      cbv
    have hprint : map.print = .ok (map.withMappings "AAAA".text).print := by
      rw [SourceMap.print, SourceMap.toJson, hencode]
      rfl
    have hmade := Runs.of_modify (fun workspace : Workspace =>
      { workspace with files := workspace.files.makeDirectories (Path.dirname path) }) before
    obtain ⟨after, hsaved⟩ : ∃ after, Runs (save name path text map "AAAA".text) built (.ok ⟨⟩)
        after := ⟨_, runs_of_isOk h.2⟩
    refine ⟨after, hmade.bind (Runs.bind hbuild ?_)⟩
    simp only [hprint]
    exact hsaved
  · cases h

/-- A packer of the style sheet `b.css` that writes its map, with a base directory or, if it is
empty, without one. -/
def ofBase (base : Text) : Packer :=
  { ofNames ["b.css".text] with base, options := {} }

def sheetAt (path : Text) : Input where
  name := "b.css".text
  path
  processors := [.text "cssrebase.processors.rewrite.process".text]
  depends := .list none []

theorem isOnlyRebased_sheetAt (base path : Text) :
    ∀ input ∈ [sheetAt path], (ofBase base).IsOnlyRebased input := by
  intro input hinput
  rw [List.mem_singleton.mp hinput]
  exact ⟨_, rfl, rfl⟩

/-- With a base directory the map beside the asset names the style sheet. -/
theorem sources_of_write_of_base :
    ∃ (after : Workspace) (map : SourceMap) (printed : Text) (bytes : ByteArray),
      Runs ((ofBase "/p".text).write "b.css".text [sheetAt "/p/src/b.css".text]
        "/p/out/b.css".text) { files := twoSheets .empty } (.ok ⟨⟩) after ∧
      map.print = .ok printed ∧ Utf8.encode? printed = some bytes ∧
      (after.files.file? "/p/out/b.css.map".text).map (·.bytes) = some bytes ∧
      ∃ source ∈ map.sources,
        Path.normalize (Path.join "/p/out".text source) = "/p/src/b.css".text := by
  have hfound : Runs ((ofBase "/p".text).inputsOf (.text "b.css".text))
      { files := twoSheets .empty } (.ok [sheetAt "/p/src/b.css".text])
      { files := twoSheets .empty } := by
    unfold Runs
    cbv
  obtain ⟨after, hwrite⟩ := exists_runs_write (ofBase "/p".text) "b.css".text
    [sheetAt "/p/src/b.css".text] "/p/out/b.css".text { files := twoSheets .empty }
    (by decide +kernel)
  have hcurrent : Path.isAbsolute (twoSheets .empty).current = true := by decide +kernel
  obtain ⟨map, printed, bytes, hprinted, hbytes, hfile, -, -, hnamed⟩ :=
    sources_of_write hcurrent rfl hfound (by simp) (isOnlyRebased_sheetAt _ _)
      (.inl (by decide)) hwrite
  obtain ⟨source, hsource, hcalls⟩ := hnamed _ List.mem_cons_self
  exact ⟨after, map, printed, bytes, hwrite, hprinted, hbytes, hfile, source, hsource,
    hcalls.spelling (by decide +kernel)⟩

/-- Without a base directory a style sheet in a directory below the current one is looked for
in that directory once more: what the map beside the asset names is not the style sheet. -/
theorem exists_misnamed :
    ∃ (after : Workspace) (map : SourceMap) (printed : Text) (bytes : ByteArray),
      Runs ((ofBase []).inputsOf (.text "b.css".text)) { files := twoSheets .empty }
        (.ok [sheetAt "src/b.css".text]) { files := twoSheets .empty } ∧
      Runs ((ofBase []).write "b.css".text [sheetAt "src/b.css".text] "out/b.css".text)
        { files := twoSheets .empty } (.ok ⟨⟩) after ∧
      map.print = .ok printed ∧ Utf8.encode? printed = some bytes ∧
      (after.files.file? "out/b.css.map".text).map (·.bytes) = some bytes ∧
      Path.absolute "/p".text "src/b.css".text = "/p/src/b.css".text ∧
      ∃ source ∈ map.sources, source = "../src/src/b.css".text ∧
        Path.normalize (Path.join "/p/out".text source) = "/p/src/src/b.css".text := by
  obtain ⟨after, hwrite⟩ := exists_runs_write (ofBase []) "b.css".text
    [sheetAt "src/b.css".text] "out/b.css".text { files := twoSheets .empty } (by decide +kernel)
  have hcurrent : Path.isAbsolute (twoSheets .empty).current = true := by decide +kernel
  obtain ⟨made, text, map?, built, hhere, hbuilt, hwritten⟩ :=
    file?_of_writeAsset hcurrent hwrite
  obtain ⟨map, rfl, -, hlisted⟩ :=
    sources_of_build rfl (by simp) (isOnlyRebased_sheetAt _ _) hbuilt
  obtain ⟨printed, bytes, hprinted, hbytes, hfile⟩ := hwritten map rfl
  refine ⟨after, map, printed, bytes, ?_, hwrite, hprinted, hbytes, hfile, by decide +kernel, _,
    (hlisted _).mpr ⟨_, List.mem_cons_self, rfl⟩, ?_⟩
  · unfold Runs
    cbv
  · rw [hhere]
    decide +kernel

end Packer

end UrlRebase
