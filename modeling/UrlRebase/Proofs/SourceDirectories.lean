import UrlRebase.Proofs.KeptDirectories

/-!
# Directories of sources

The directory of a source is found by taking the source from the root of its map and from the
directory of the style sheet, and going up from where that leads.  For a source that ends with
the name of a file this is the place to which the front of the source leads.  An empty source,
which is what a map without a name for a source has, ends with no name: going up from where it
leads gives the parent of the directory that it means.
-/

namespace UrlRebase

namespace Path

/-! ## Fronts of paths -/

theorem upToSlash_append_basename (path : Text) : upToSlash path ++ basename path = path := by
  rw [upToSlash, basename, ← List.reverse_append, List.takeWhile_append_dropWhile,
    List.reverse_reverse]

theorem upToSlash_cases (path : Text) :
    upToSlash path = [] ∨ (upToSlash path).getLast? = some (.char '/') := by
  by_cases hslash : .char '/' ∈ path
  · obtain ⟨last, front, hreverse, hlast⟩ :=
      List.eq_append_cons_of_mem (List.mem_reverse.mpr hslash)
    have hpath : path = front.reverse ++ CodePoint.char '/' :: last.reverse := by
      rw [← List.reverse_reverse path, hreverse]
      simp
    rw [hpath, upToSlash_append (by simpa using hlast), List.getLast?_concat]
    exact .inr rfl
  · refine .inl ?_
    rw [upToSlash, List.reverse_eq_nil_iff, List.dropWhile_eq_nil_iff]
    intro c hc
    rw [decide_eq_true_eq]
    rintro rfl
    exact hslash (List.mem_reverse.mp hc)

/-- Whether a part of a path is the way that the path spells before its last slash.  Slashes at
its end count only where nothing else stands before them. -/
def IsFront (part path : Text) : Prop :=
  ∃ slashes, (∀ c ∈ slashes, c = .char '/') ∧ upToSlash path = part ++ slashes ∧
    (slashes = [] ∨ ∃ c ∈ part, c ≠ .char '/')

theorem isFront_upToSlash (path : Text) : IsFront (upToSlash path) path :=
  ⟨[], by simp, (List.append_nil _).symm, .inl rfl⟩

theorem isFront_dirname (path : Text) : IsFront (dirname path) path := by
  rw [dirname]
  split
  · exact isFront_upToSlash path
  · rename_i hsome
    have hslash {c : CodePoint}
        (hc : c ∈ (upToSlash path).reverse.takeWhile (· = .char '/')) : c = .char '/' := by
      simpa using List.mem_takeWhile_imp hc
    have hsplit := List.takeWhile_append_dropWhile (p := (· = CodePoint.char '/'))
      (l := (upToSlash path).reverse)
    refine ⟨((upToSlash path).reverse.takeWhile (· = .char '/')).reverse,
      fun c hc => hslash (List.mem_reverse.mp hc), ?_, .inr ?_⟩
    · rw [Text.trimRight, ← List.reverse_append, hsplit, List.reverse_reverse]
    · simp only [List.all_eq_true, decide_eq_true_eq, not_forall] at hsome
      obtain ⟨c, hc, hne⟩ := hsome
      rw [← List.mem_reverse, ← hsplit, List.mem_append] at hc
      exact ⟨c, List.mem_reverse.mpr (hc.resolve_left fun hmem => hne (hslash hmem)), hne⟩

theorem isFront_nil_iff {part : Text} : IsFront part [] ↔ part = [] := by
  constructor
  · rintro ⟨slashes, -, hpart, -⟩
    exact (List.append_eq_nil_iff.mp hpart.symm).1
  · rintro rfl
    exact isFront_upToSlash []

/-! ## What stands behind a path -/

theorem isAbsolute_append_of_ne_nil {path : Text} (h : path ≠ []) (behind : Text) :
    isAbsolute (path ++ behind) = isAbsolute path := by
  obtain ⟨c, rest, rfl⟩ := List.exists_cons_of_ne_nil h
  rfl

theorem isAbsolute_of_notMem {name : Text} (h : .char '/' ∉ name) : isAbsolute name = false := by
  rw [isAbsolute, decide_eq_false_iff_not]
  exact fun hhead => h (List.mem_of_head? hhead)

theorem isAbsolute_append_of_notMem {name : Text} (h : .char '/' ∉ name) (path : Text) :
    isAbsolute (path ++ name) = isAbsolute path := by
  cases path with
  | nil => exact isAbsolute_of_notMem h
  | cons c path => rfl

theorem join_append
    {path behind : Text} (h : isAbsolute (path ++ behind) = isAbsolute path) (directory : Text) :
    join directory (path ++ behind) = join directory path ++ behind := by
  rw [join, join, h]
  split
  · rfl
  · split <;> simp only [List.append_assoc]

theorem mem_join {path : Text} {c : CodePoint} (h : c ∈ path) (directory : Text) :
    c ∈ join directory path := by
  rw [join]
  split
  · exact h
  · split <;> exact List.mem_append_right _ h

theorem getLast?_join
    {directory path : Text} (hdirectory : directory ≠ [])
    (hpath : path = [] ∨ path.getLast? = some (.char '/')) :
    (join directory path).getLast? = some (.char '/') := by
  rcases hpath with rfl | hpath
  · rw [join]
    split
    · contradiction
    · split
      · rename_i hlast
        simpa using hlast.resolve_left hdirectory
      · simp [String.text]
  · have hbehind (front : Text) : (front ++ path).getLast? = some (.char '/') := by
      rw [List.getLast?_append, hpath, Option.some_or]
    rw [join]
    split
    · exact hpath
    · split <;> exact hbehind _

theorem rootMark_append_relative (path : Text) {behind : Text} (h : isAbsolute behind = false) :
    rootMark (path ++ behind) = rootMark path := by
  have hrelative {c : CodePoint} (hc : c ≠ .char '/') (rest : Text) :
      isAbsolute (c :: rest) = false := by
    simp [isAbsolute, hc]
  -- The mark is told by the first three characters, of which only slashes count.
  cases path with
  | nil => exact rootMark_of_relative h
  | cons c path =>
      by_cases hc : c = .char '/'
      · subst hc
        cases path with
        | nil => exact rootMark_append (.inl rfl) h
        | cons d path =>
            by_cases hd : d = .char '/'
            · subst hd
              cases path with
              | nil => exact rootMark_append (.inr rfl) h
              | cons e path =>
                  by_cases he : e = .char '/'
                  · subst he
                    rfl
                  · exact (rootMark_append (.inr rfl) (hrelative he _)).trans
                      (rootMark_append (.inr rfl) (hrelative he _)).symm
            · exact (rootMark_append (.inl rfl) (hrelative hd _)).trans
                (rootMark_append (.inl rfl) (hrelative hd _)).symm
      · exact (rootMark_of_relative (hrelative hc _)).trans
          (rootMark_of_relative (hrelative hc _)).symm

theorem rootMark_append_of_mem
    {path : Text} (h : ∃ c ∈ path, c ≠ .char '/') (behind : Text) :
    rootMark (path ++ behind) = rootMark path := by
  obtain ⟨c, hmem, hc⟩ := h
  obtain ⟨front, rest, rfl⟩ := List.append_of_mem hmem
  have hrelative (more : Text) : isAbsolute (c :: more) = false := by
    simp [isAbsolute, hc]
  rw [List.append_assoc, List.cons_append, rootMark_append_relative front (hrelative _),
    rootMark_append_relative front (hrelative _)]

theorem walk_append_slashes
    {slashes : Text} (h : ∀ c ∈ slashes, c = .char '/') (place : List Text) (path : Text) :
    walk place (path ++ slashes) = walk place path := by
  induction slashes generalizing place path with
  | nil => rw [List.append_nil]
  | cons c slashes ih =>
      obtain rfl := h c List.mem_cons_self
      have hrest := ih (fun d hd => h d (List.mem_cons_of_mem _ hd)) (walk place path) []
      rw [List.nil_append, walk_nil] at hrest
      rw [walk_append_slash, hrest]

/-- A path that is more than slashes leads to one place with slashes behind it and without. -/
theorem normalize_append_slashes
    {path slashes : Text} (habsolute : isAbsolute path = true)
    (hslashes : ∀ c ∈ slashes, c = .char '/') (hsome : ∃ c ∈ path, c ≠ .char '/') :
    normalize (path ++ slashes) = normalize path := by
  have hne : path ≠ [] := by
    rintro rfl
    cases habsolute
  have hwhole : isAbsolute (path ++ slashes) = true := by
    rw [isAbsolute_append_of_ne_nil hne, habsolute]
  rw [normalize_of_absolute hwhole, normalize_of_absolute habsolute,
    segments_of_absolute hwhole, segments_of_absolute habsolute, walk_append_slashes hslashes,
    rootMark_append_of_mem hsome]

/-- A name behind the last slash of a path leads into the place of the path, and so up from
there is where the path leads. -/
theorem dirname_normalize_append
    {path name : Text} (habsolute : isAbsolute path = true)
    (hlast : path.getLast? = some (.char '/')) (hname : IsName name) :
    dirname (normalize (path ++ name)) = normalize path := by
  obtain ⟨front, rfl⟩ := List.getLast?_eq_some_iff.mp hlast
  have hwhole := isAbsolute_append_of_notMem hname.whole (front ++ [CodePoint.char '/'])
  rw [habsolute] at hwhole
  have hsegments : segments (front ++ [CodePoint.char '/'] ++ name) =
      segments (front ++ [CodePoint.char '/']) ++ [name] := by
    have hstep : step true (walk [] front) name = name :: walk [] front := by
      simp [step, hname.moves, hname.down]
    rw [segments_of_absolute hwhole, segments_of_absolute habsolute, List.append_assoc,
      List.singleton_append, walk_append_slash, walk_append_slash, walk_nil,
      walk_of_notMem hname.whole, hstep, List.reverse_cons]
  have hnames : ∀ segment ∈ segments (front ++ [CodePoint.char '/']) ++ [name],
      IsName segment := hsegments ▸ isName_segments hwhole
  rw [normalize_of_absolute hwhole, hsegments,
    rootMark_append_relative _ (isAbsolute_of_notMem hname.whole),
    dirname_rooted (isRoot_rootMark habsolute) hnames, List.dropLast_concat,
    normalize_of_absolute habsolute]

/-- Only a root is its own parent. -/
theorem dirname_normalize_eq_iff {path : Text} (habsolute : isAbsolute path = true) :
    dirname (normalize path) = normalize path ↔ IsRoot (normalize path) := by
  have hmark := isRoot_rootMark habsolute
  have hnames := isName_segments habsolute
  have hinit : ∀ name ∈ (segments path).dropLast, IsName name := fun name hname =>
    hnames name (List.mem_of_mem_dropLast hname)
  rw [normalize_of_absolute habsolute, dirname_rooted hmark hnames,
    rooted_eq_rooted_iff hmark hmark hinit hnames]
  have hroot : IsRoot (rooted (rootMark path) (segments path)) ↔ segments path = [] := by
    constructor
    · intro hroot
      have hself := names_rooted hmark hnames
      rcases hroot with h | h <;> rw [h] at hself <;> exact hself.symm.trans rfl
    · intro hnil
      rw [hnil, rooted, show Text.joined ['/'] [] = [] from rfl, List.append_nil]
      exact hmark
  rw [hroot]
  constructor
  · rintro ⟨-, hdrop⟩
    have hlength := congrArg List.length hdrop
    rw [List.length_dropLast] at hlength
    exact List.length_eq_zero_iff.mp (by omega)
  · intro hnil
    rw [hnil]
    exact ⟨rfl, rfl⟩

end Path

/-! ## The directory of a source -/

theorem behindRoot_append
    {path behind : Text} (h : Path.isAbsolute (path ++ behind) = Path.isAbsolute path)
    (root : Json) :
    behindRoot root (path ++ behind) = behindRoot root path ++ behind := by
  cases root with
  | string text => exact Path.join_append h text
  | _ => rfl

theorem mem_behindRoot {path : Text} {c : CodePoint} (h : c ∈ path) (root : Json) :
    c ∈ behindRoot root path := by
  cases root with
  | string text => exact Path.mem_join h text
  | _ => exact h

theorem behindRoot_endsOpen
    {path : Text} (h : path = [] ∨ path.getLast? = some (.char '/')) (root : Json) :
    behindRoot root path = [] ∨ (behindRoot root path).getLast? = some (.char '/') := by
  cases root with
  | string text =>
      by_cases htext : text = []
      · subst htext
        have hjoin : Path.join [] path = path := by simp [Path.join]
        rw [behindRoot, hjoin]
        exact h
      · exact .inr (Path.getLast?_join htext h)
  | _ => exact h

/-- The place to which a part of a source leads from the root of its map and from the directory
of the style sheet. -/
def folder (directory : Text) (root : Json) (part : Text) : Text :=
  Path.normalize (Path.join directory (behindRoot root part))

section Folder

variable {directory : Text} (hdirectory : Path.isAbsolute directory = true)
include hdirectory

/-- A front of a source leads to one place with the slashes at its end and without. -/
theorem folder_of_isFront {part source : Text} (hpart : Path.IsFront part source) (root : Json) :
    folder directory root part = folder directory root (Path.upToSlash source) := by
  obtain ⟨slashes, hslashes, hfront, hnone | ⟨c, hmem, hc⟩⟩ := hpart
  · rw [hfront, hnone, List.append_nil]
  · have hroot := mem_behindRoot hmem root
    rw [folder, folder, hfront,
      behindRoot_append (Path.isAbsolute_append_of_ne_nil (List.ne_nil_of_mem hmem) slashes),
      Path.join_append (Path.isAbsolute_append_of_ne_nil (List.ne_nil_of_mem hroot) slashes)]
    exact (Path.normalize_append_slashes (Path.isAbsolute_join hdirectory _) hslashes
      ⟨c, Path.mem_join hroot directory, hc⟩).symm

theorem dirname_folder_of_isName {source : Text} (hname : Path.IsName (Path.basename source))
    (root : Json) :
    Path.dirname (Path.normalize (Path.join directory (behindRoot root source))) =
      folder directory root (Path.upToSlash source) := by
  have hne : directory ≠ [] := by
    rintro rfl
    cases hdirectory
  have hsplit : Path.join directory (behindRoot root source) =
      Path.join directory (behindRoot root (Path.upToSlash source)) ++ Path.basename source := by
    rw [← Path.join_append (Path.isAbsolute_append_of_notMem hname.whole _),
      ← behindRoot_append (Path.isAbsolute_append_of_notMem hname.whole _),
      Path.upToSlash_append_basename]
  rw [hsplit, folder]
  exact Path.dirname_normalize_append (Path.isAbsolute_join hdirectory _)
    (Path.getLast?_join hne (behindRoot_endsOpen (Path.upToSlash_cases source) root)) hname

/-- A source that ends with the name of a file is in the directory to which its front leads, and
an empty one in the parent of that directory: the two are one only at a root. -/
theorem directoryOfSource_eq_folder_iff
    {root : Json} (hroot : root = .null ∨ ∃ text, root = .string text)
    {source part : Text} (hurl : ¬NamesUrl source)
    (hsource : source = [] ∨ Path.IsName (Path.basename source))
    (hpart : Path.IsFront part source) (current : Text) :
    directoryOfSource current source directory root =
        .ok (if source = [] then Path.dirname (folder directory root part)
          else folder directory root part) ∧
      (directoryOfSource current source directory root = .ok (folder directory root part) ↔
        source ≠ [] ∨ Path.IsRoot (folder directory root part)) := by
  have hwhole := Path.isAbsolute_join hdirectory (behindRoot root source)
  have hplace : directoryOfSource current source directory root =
      .ok (Path.dirname (Path.normalize (Path.join directory (behindRoot root source)))) :=
    (directoryOfSource_eq_ok_iff hroot).mpr ⟨source, sourcePath_of_not_namesUrl hurl, by
      rw [Path.absolute, if_pos hwhole]⟩
  rw [hplace]
  by_cases hnil : source = []
  · subst hnil
    obtain rfl := Path.isFront_nil_iff.mp hpart
    refine ⟨by rw [if_pos rfl, folder], ?_⟩
    rw [Except.ok.injEq, folder, Path.dirname_normalize_eq_iff hwhole]
    simp
  · rw [if_neg hnil, folder_of_isFront hdirectory hpart root,
      dirname_folder_of_isName hdirectory (hsource.resolve_left hnil) root]
    exact ⟨rfl, iff_of_true rfl (.inl hnil)⟩

end Folder

/-- The directory of a source under the root of a map, whose front goes up. -/
theorem directoryOfSource_of_front :
    directoryOfSource "/".text "../d//b.scss".text "/p/src".text (.string "lib/c".text) =
      .ok (folder "/p/src".text (.string "lib/c".text) (Path.dirname "../d//b.scss".text)) :=
  (directoryOfSource_eq_folder_iff (by decide) (.inr ⟨_, rfl⟩)
    (by rintro ⟨_, _, h⟩; cases h) (.inr ⟨by decide, by decide, by decide⟩)
    (Path.isFront_dirname _) "/".text).2.mpr (.inl (by decide))

/-- A map without a name for a source has the empty one, whose directory is not the one that it
means but the parent. -/
theorem directoryOfSource_of_unnamed :
    directoryOfSource "/".text (SourceMap.sourceName .null) "/p/src".text .null =
        .ok "/p".text ∧
      folder "/p/src".text .null (Path.dirname (SourceMap.sourceName .null)) = "/p/src".text :=
  ⟨by cbv, by decide +kernel⟩

end UrlRebase
