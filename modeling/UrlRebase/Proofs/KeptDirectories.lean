import UrlRebase.Asset.Source
import UrlRebase.Pack.Build
import UrlRebase.Proofs.MergedIndices
import UrlRebase.Proofs.RelativeWays

/-!
# Directories of relocated sources

A map that is put beside an output names its sources by ways from there.  A way is no URL, so
the directory of a relocated source is the one to which the source leads if it is read as a path
under the root of its map.  The source itself is read as a URL if it looks like one, and then
its decoded path counts: the directory is kept exactly if both readings lead to one directory,
and if the path does not start with two slashes, of which a way keeps none.
-/

namespace UrlRebase

namespace Path

variable {current : Text} (hcurrent : isAbsolute current = true)
include hcurrent

/-- The way from a directory to a path has names and upward segments between single slashes, or
is the one idle segment. -/
theorem exists_relative_eq (path directory : Text) :
    ∃ way : List Text, relative current path directory = Text.joined ['/'] way ∧ way ≠ [] ∧
      ∀ part ∈ way, .char '/' ∉ part ∧ part ≠ [] := by
  have hpath := isName_trail hcurrent path
  obtain ⟨shared, hdown, -⟩ := dropShared_spec (trail current path) (trail current directory)
  unfold relative
  rw [names_absolute hcurrent, names_absolute hcurrent]
  generalize dropShared (trail current path) (trail current directory) = ways at *
  obtain ⟨down, up⟩ := ways
  simp only at hdown ⊢
  split
  · exact ⟨[".".text], rfl, by simp, by decide⟩
  · rename_i hsome
    refine ⟨_, rfl, hsome, fun part hpart => ?_⟩
    rcases List.mem_append.mp hpart with hpart | hpart
    · obtain ⟨-, -, rfl⟩ := List.mem_map.mp hpart
      decide
    · have hname := hpath part (hdown ▸ List.mem_append_right shared hpart)
      exact ⟨hname.whole, hname.ne_nil⟩

omit hcurrent in
theorem rooted_eq_rooted_iff
    {mark mark' : Text} {names names' : List Text} (hmark : IsRoot mark) (hmark' : IsRoot mark')
    (hnames : ∀ name ∈ names, IsName name) (hnames' : ∀ name ∈ names', IsName name) :
    rooted mark names = rooted mark' names' ↔ mark = mark' ∧ names = names' := by
  constructor
  · intro h
    have hmarks := congrArg rootMark h
    have hall := congrArg Path.names h
    rw [rootMark_rooted hmark hnames, rootMark_rooted hmark' hnames'] at hmarks
    rw [names_rooted hmark hnames, names_rooted hmark' hnames'] at hall
    exact ⟨hmarks, hall⟩
  · rintro ⟨rfl, rfl⟩
    rfl

omit hcurrent in
theorem rootMark_of_relative {path : Text} (h : isAbsolute path = false) : rootMark path = [] := by
  unfold rootMark
  split
  · cases h
  · cases h
  · cases h
  · rfl

/-- A path that is joined onto the directory of a file below the one root starts with two
slashes only if it does so itself. -/
theorem rootMark_join_dirname_iff
    {input : Text} (hinput : rootMark (absolute current input) = [.char '/']) (path : Text) :
    rootMark (join current (join (dirname (absolute current input)) path)) = [.char '/'] ↔
      rootMark path ≠ [.char '/', .char '/'] := by
  have hdirectory := isAbsolute_dirname hcurrent input
  have hjoin : join current (join (dirname (absolute current input)) path) =
      join (dirname (absolute current input)) path := by
    rw [join, if_pos (isAbsolute_join hdirectory path)]
  rw [hjoin]
  cases hpath : isAbsolute path with
  | true =>
      rw [join, if_pos hpath]
      rcases isRoot_rootMark hpath with hmark | hmark <;> simp [hmark]
  | false =>
      have hnames : ∀ name ∈ (trail current input).dropLast, IsName name := fun name hname =>
        isName_trail hcurrent input name (List.mem_of_mem_dropLast hname)
      have hroot := isRoot_rootMark (isAbsolute_join hcurrent input)
      rw [dirname_absolute hcurrent, rootMark_join hroot hnames hpath,
        ← rootMark_absolute hcurrent, hinput]
      exact iff_of_true rfl (by simp [rootMark_of_relative hpath])

/-- The directory of a way to a path, taken from where the way starts, is the directory of the
path, but that it starts with the slashes of the output. -/
theorem dirname_join_relative (output path : Text) :
    dirname (absolute current (join (dirname (absolute current output))
        (relative current path (dirname (absolute current output))))) =
      rooted (rootMark (join current output)) (trail current path).dropLast := by
  have hdirectory := isAbsolute_dirname hcurrent output
  rw [absolute, if_pos (isAbsolute_join hdirectory _), normalize_join_relative hcurrent,
    dirname_rooted (isRoot_rootMark (isAbsolute_join hcurrent output))
      (isName_trail hcurrent path)]

end Path

/-! ## Sources that look like URLs -/

/-- Whether a source is read as a URL: it starts with a scheme and two slashes. -/
def NamesUrl (source : Text) : Prop :=
  ∃ colon rest, behindScheme? source = some (colon :: .char '/' :: .char '/' :: rest)

theorem sourcePath_of_not_namesUrl {source : Text} (h : ¬NamesUrl source) :
    sourcePath source = .ok source := by
  unfold sourcePath
  split
  · rename_i colon rest hscheme
    exact absurd ⟨colon, rest, hscheme⟩ h
  · rfl

theorem exists_of_behindScheme? {text behind : Text} (h : behindScheme? text = some behind) :
    ∃ front, text = front ++ behind := by
  cases text with
  | nil => simp [behindScheme?] at h
  | cons c rest =>
      rw [behindScheme?] at h
      split at h
      · split at h
        · rename_i more hmore
          obtain rfl := Option.some.inj h
          refine ⟨c :: rest.takeWhile isSchemePart, ?_⟩
          rw [← hmore, List.cons_append, List.takeWhile_append_dropWhile]
        · cases h
      · cases h

/-- Segments between single slashes are no URL. -/
theorem not_namesUrl_joined
    {parts : List Text} (hparts : ∀ part ∈ parts, .char '/' ∉ part ∧ part ≠ [])
    (hsome : parts ≠ []) : ¬NamesUrl (Text.joined ['/'] parts) := by
  rintro ⟨colon, rest, hscheme⟩
  obtain ⟨front, hfront⟩ := exists_of_behindScheme? hscheme
  have hfields := Text.fields_joined (fun part hpart => (hparts part hpart).1) hsome
  have hsplit : front ++ colon :: .char '/' :: .char '/' :: rest =
      (front ++ [colon]) ++ .char '/' :: .char '/' :: rest := by simp
  -- Between the two slashes there would be an empty segment.
  rw [hfront, hsplit, Text.fields_append_cons] at hfields
  have hempty : [] ∈ parts := by
    rw [← hfields]
    exact List.mem_append_right _ (by simp [Text.fields])
  exact (hparts [] hempty).2 rfl

/-! ## Directories under the root of a map -/

/-- A path taken relative to the root of a map, if the root is a text. -/
def behindRoot (root : Json) (path : Text) : Text :=
  match root with
  | .string root => Path.join root path
  | _ => path

section Root

variable {root : Json} (hroot : root = .null ∨ ∃ text, root = .string text)
include hroot

theorem underRoot_eq (path : Text) : underRoot root path = .ok (behindRoot root path) := by
  unfold underRoot
  rcases hroot with rfl | ⟨text, rfl⟩
  · rfl
  · by_cases hnil : text = []
    · subst hnil
      simp [behindRoot, Path.join, Json.truthy]
    · cases hpath : Path.isAbsolute path <;> simp [behindRoot, Path.join, Json.truthy, hnil, hpath]

theorem sourceBeside_eq (current inputDirectory outputDirectory source : Text) :
    SourceMap.sourceBeside current inputDirectory outputDirectory root source =
      .ok (Path.relative current
        (Path.absolute current (Path.join inputDirectory (behindRoot root source)))
        outputDirectory) := by
  unfold SourceMap.sourceBeside
  rcases hroot with rfl | ⟨text, rfl⟩
  · rfl
  · by_cases hnil : text = []
    · subst hnil
      have hjoin : Path.join [] source = source := by simp [Path.join]
      simp only [behindRoot, hjoin]
      rfl
    · have htruthy : (Json.string text).truthy = true := by simpa [Json.truthy] using hnil
      rw [if_pos htruthy]
      rfl

theorem directoryOfSource_eq_ok_iff {current source directory inDirectory : Text} :
    directoryOfSource current source inDirectory root = .ok directory ↔
      ∃ path, sourcePath source = .ok path ∧ directory = Path.dirname (Path.absolute current
        (Path.join inDirectory (behindRoot root path))) := by
  unfold directoryOfSource
  cases sourcePath source with
  | error error => simp [Except.mapError, bind, Except.bind]
  | ok path =>
      simp [Except.mapError, bind, Except.bind, underRoot_eq hroot, pure, Except.pure, eq_comm]

end Root

namespace SourceMap

/-- What keeps the directory of a source: its path under the root of the map does not start with
just two slashes, and leads to the directory to which the text of the source leads. -/
structure KeepsDirectory (current directory : Text) (root : Json) (source path : Text) :
    Prop where
  mark : Path.rootMark (behindRoot root path) ≠ [.char '/', .char '/']
  names : (Path.trail current (Path.join directory (behindRoot root path))).dropLast =
    (Path.trail current (Path.join directory (behindRoot root source))).dropLast

section Beside

variable {current input output : Text} (hcurrent : Path.isAbsolute current = true)
  (houtput : Path.rootMark (Path.absolute current output) = [.char '/'])
include hcurrent houtput

/-- A source that is put beside an output is in the directory to which the source leads as a
path. -/
theorem exists_directory_beside
    {root : Json} (hroot : root = .null ∨ ∃ text, root = .string text)
    (inDirectory source : Text) :
    ∃ beside,
      sourceBeside current inDirectory (Path.dirname (Path.absolute current output)) root
        source = .ok beside ∧
      directoryOfSource current beside (Path.dirname (Path.absolute current output)) .null =
        .ok (Path.rooted ['/']
          (Path.trail current (Path.join inDirectory (behindRoot root source))).dropLast) := by
  have hnull : (Json.null = .null ∨ ∃ text, Json.null = .string text) := .inl rfl
  obtain ⟨way, hway, hsome, hparts⟩ := Path.exists_relative_eq hcurrent
    (Path.absolute current (Path.join inDirectory (behindRoot root source)))
    (Path.dirname (Path.absolute current output))
  refine ⟨_, sourceBeside_eq hroot current inDirectory _ source,
    (directoryOfSource_eq_ok_iff hnull).mpr
      ⟨_, sourcePath_of_not_namesUrl (hway ▸ not_namesUrl_joined hparts hsome), ?_⟩⟩
  rw [Path.rootMark_absolute hcurrent] at houtput
  change _ = Path.dirname (Path.absolute current
    (Path.join (Path.dirname (Path.absolute current output)) (Path.relative current _ _)))
  rw [Path.dirname_join_relative hcurrent, Path.trail_absolute hcurrent, houtput]

omit houtput in
/-- The directory of the path of a source is the one of the source that is put beside an output
exactly if the source keeps it. -/
theorem rooted_eq_directory_iff
    (hinput : Path.rootMark (Path.absolute current input) = [.char '/'])
    (root : Json) (source path : Text) :
    Path.rooted ['/'] (Path.trail current (Path.join (Path.dirname (Path.absolute current input))
        (behindRoot root source))).dropLast =
      Path.dirname (Path.absolute current
        (Path.join (Path.dirname (Path.absolute current input)) (behindRoot root path))) ↔
      KeepsDirectory current (Path.dirname (Path.absolute current input)) root source path := by
  have hnames (file : Text) : ∀ name ∈ (Path.trail current file).dropLast, Path.IsName name :=
    fun name hname => Path.isName_trail hcurrent file name (List.mem_of_mem_dropLast hname)
  have hone : Path.IsRoot [.char '/'] := .inl rfl
  rw [Path.dirname_absolute hcurrent (Path.join (Path.dirname (Path.absolute current input))
      (behindRoot root path)),
    Path.rooted_eq_rooted_iff hone (Path.isRoot_rootMark (Path.isAbsolute_join hcurrent _))
      (hnames _) (hnames _), eq_comm, Path.rootMark_join_dirname_iff hcurrent hinput]
  exact ⟨fun h => ⟨h.1, h.2.symm⟩, fun h => ⟨h.mark, h.names.symm⟩⟩

/-- A map that is put beside an output keeps the directory of a source exactly if the source
leads to one directory whether its own path or its text is taken, and its path under the root
does not start with just two slashes.  The path of a source that is no URL is its text. -/
theorem directoryOfSource_beside_iff
    {map : SourceMap} (hroot : map.root = .null ∨ ∃ text, map.root = .string text)
    (hinput : Path.rootMark (Path.absolute current input) = [.char '/']) :
    ∃ relocated, map.beside current input output = .ok relocated ∧
      List.Forall₂ (fun source beside => ∀ directory,
        directoryOfSource current source (Path.dirname (Path.absolute current input)) map.root =
          .ok directory →
        ∃ path, sourcePath source = .ok path ∧ (¬NamesUrl source → path = source) ∧
          (directoryOfSource current beside (Path.dirname (Path.absolute current output))
              relocated.root = .ok directory ↔
            KeepsDirectory current (Path.dirname (Path.absolute current input)) map.root source
              path))
        map.sources relocated.sources := by
  obtain ⟨sources, hsources, hkept⟩ := Except.exists_mapM fun source (_ : source ∈ map.sources) =>
    exists_directory_beside hcurrent houtput hroot (Path.dirname (Path.absolute current input))
      source
  refine ⟨ofParts sources map.mappings map.names .null .null map.contents, ?_,
    hkept.imp fun source beside hbeside directory hdirectory => ?_⟩
  · simp only [SourceMap.beside, hsources, bind, Except.bind, pure, Except.pure]
  · obtain ⟨path, hpath, rfl⟩ := (directoryOfSource_eq_ok_iff hroot).mp hdirectory
    refine ⟨path, hpath, fun hurl => ?_, ?_⟩
    · rw [sourcePath_of_not_namesUrl hurl] at hpath
      exact (Except.ok.inj hpath).symm
    · change directoryOfSource current beside _ .null = _ ↔ _
      rw [hbeside, Except.ok.injEq, rooted_eq_directory_iff hcurrent hinput]

end Beside

/-- A source under the root of its map keeps its directory. -/
theorem directoryOfSource_beside_of_root :
    directoryOfSource "/".text "../b.scss".text "/p/src".text (.string "lib/c".text) =
        .ok "/p/src/lib".text ∧
      ∃ relocated,
        (ofParts ["../b.scss".text] [] [] .null (.string "lib/c".text) none).beside "/".text
          "/p/src/a.css".text "/p/out/a.css".text = .ok relocated ∧
        ∃ beside, relocated.sources = [beside] ∧
          directoryOfSource "/".text beside "/p/out".text relocated.root =
            .ok "/p/src/lib".text := by
  have hdirectory : directoryOfSource "/".text "../b.scss".text "/p/src".text
      (.string "lib/c".text) = .ok "/p/src/lib".text := by
    cbv
  have hsource : sourcePath "../b.scss".text = .ok "../b.scss".text := by cbv
  obtain ⟨relocated, hrelocated, hkept⟩ :=
    @directoryOfSource_beside_iff "/".text "/p/src/a.css".text "/p/out/a.css".text
      (by decide) (by decide +kernel)
      (ofParts ["../b.scss".text] [] [] .null (.string "lib/c".text) none) (.inr ⟨_, rfl⟩)
      (by decide +kernel)
  obtain ⟨beside, rest, hkept, hrest, hbeside⟩ := List.forall₂_cons_left_iff.mp hkept
  rw [List.forall₂_nil_left_iff.mp hrest] at hbeside
  refine ⟨hdirectory, relocated, hrelocated, beside, hbeside, ?_⟩
  obtain ⟨path, hpath, -, hiff⟩ := hkept _ hdirectory
  rw [hsource] at hpath
  obtain rfl := Except.ok.inj hpath
  exact hiff.mpr ⟨by decide +kernel, rfl⟩

/-- A source that is the URL of a file is taken for a path when it is put beside an output, and
so leads to another directory than before. -/
theorem exists_moved_directory :
    ∃ beside,
      ((ofParts ["file:///p/src/a.scss".text] [] [] .null .null none).beside "/p".text
          "/p/src/a.css".text "/p/out/site.css".text).toOption.map SourceMap.sources =
        some [beside] ∧
      (directoryOfSource "/p".text "file:///p/src/a.scss".text "/p/src".text .null).toOption =
        some "/p/src".text ∧
      (directoryOfSource "/p".text beside "/p/out".text .null).toOption =
        some "/p/src/file:/p/src".text :=
  ⟨"../src/file:/p/src/a.scss".text, by decide +kernel, by decide +kernel, by decide +kernel⟩

end SourceMap

end UrlRebase
