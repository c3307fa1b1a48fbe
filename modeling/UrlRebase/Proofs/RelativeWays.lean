import UrlRebase.FileSystem.Basic
import UrlRebase.Proofs.WalkedPaths

/-!
# Ways between places

Every path means a place.  The way from a directory to a path leads there: joined onto the
directory, it means the place that the path means.  A file system keeps what paths mean, so
paths to one place name one file.
-/

namespace UrlRebase

namespace Path

/-- The names on the way from the root to the place that a path means. -/
def trail (current path : Text) : List Text :=
  segments (join current path)

section Trail

variable {current : Text} (hcurrent : isAbsolute current = true)
include hcurrent

theorem isName_trail (path : Text) : ∀ name ∈ trail current path, IsName name :=
  isName_segments (isAbsolute_join hcurrent path)

/-- The absolute spelling of a path is the shortest one to the place that it means. -/
theorem absolute_eq_rooted (path : Text) :
    absolute current path = rooted (rootMark (join current path)) (trail current path) := by
  have hjoin : (if isAbsolute path = true then path else join current path) = join current path := by
    unfold join
    split <;> rfl
  rw [absolute, hjoin, normalize_of_absolute (isAbsolute_join hcurrent path), trail]

theorem rootMark_absolute (path : Text) :
    rootMark (absolute current path) = rootMark (join current path) := by
  rw [absolute_eq_rooted hcurrent]
  exact rootMark_rooted (isRoot_rootMark (isAbsolute_join hcurrent path)) (isName_trail hcurrent path)

theorem isAbsolute_absolute (path : Text) : isAbsolute (absolute current path) = true := by
  rw [absolute_eq_rooted hcurrent]
  exact isAbsolute_rooted (isRoot_rootMark (isAbsolute_join hcurrent path))

theorem names_absolute (path : Text) : Path.names (absolute current path) = trail current path := by
  rw [absolute_eq_rooted hcurrent, names_rooted (isRoot_rootMark (isAbsolute_join hcurrent path))
    (isName_trail hcurrent path)]

omit hcurrent in
theorem trail_of_absolute {path : Text} (h : isAbsolute path = true) :
    trail current path = segments path := by
  rw [trail, join, if_pos h]

theorem trail_absolute (path : Text) : trail current (absolute current path) = trail current path := by
  have hmark := isRoot_rootMark (isAbsolute_join hcurrent path)
  have hnames := isName_trail hcurrent path
  rw [trail_of_absolute (isAbsolute_absolute hcurrent path),
    segments_of_absolute (isAbsolute_absolute hcurrent path), absolute_eq_rooted hcurrent,
    walk_rooted hmark hnames, List.append_nil, List.reverse_reverse]

/-! ## Ways -/

omit hcurrent in
theorem dropShared_spec (left right : List Text) :
    ∃ shared, left = shared ++ (dropShared left right).1 ∧
      right = shared ++ (dropShared left right).2 := by
  induction left generalizing right with
  | nil => exact ⟨[], by simp [dropShared], by simp [dropShared]⟩
  | cons a left ih =>
      cases right with
      | nil => exact ⟨[], by simp [dropShared], by simp [dropShared]⟩
      | cons b right =>
          unfold dropShared
          split
          · rename_i hab
            subst hab
            obtain ⟨shared, hleft, hright⟩ := ih right
            exact ⟨a :: shared, congrArg (a :: ·) hleft, congrArg (a :: ·) hright⟩
          · exact ⟨[], rfl, rfl⟩

omit hcurrent in
/-- Up from one of two places below a third one, and down to the other. -/
theorem foldl_step_way
    {shared up down : List Text} (hup : ∀ name ∈ up, IsName name) (hdown : ∀ name ∈ down, IsName name) :
    (up.map (fun _ => "..".text) ++ down).foldl (step true) (shared ++ up).reverse =
      (shared ++ down).reverse := by
  have hups : up.map (fun _ => "..".text) = up.reverse.map fun _ => "..".text := by
    simp [List.map_const']
  rw [List.foldl_append, List.reverse_append, hups,
    foldl_step_ups (fun name hname => hup name (List.mem_reverse.mp hname)),
    foldl_step_names hdown, List.reverse_append]

/-- The way from a directory to a path is relative and leads from the place of the one to the
place of the other. -/
theorem relative_spec (path directory : Text) :
    isAbsolute (relative current path directory) = false ∧
      walk (trail current directory).reverse (relative current path directory) =
        (trail current path).reverse := by
  have hpath := isName_trail hcurrent path
  have hdirectory := isName_trail hcurrent directory
  obtain ⟨shared, hleft, hright⟩ := dropShared_spec (trail current path) (trail current directory)
  unfold relative
  rw [names_absolute hcurrent, names_absolute hcurrent]
  -- What the two places do not share is the way down to the one and the way up from the other.
  generalize dropShared (trail current path) (trail current directory) = ways at *
  obtain ⟨down, up⟩ := ways
  simp only at hleft hright ⊢
  rw [hleft] at hpath ⊢
  rw [hright] at hdirectory ⊢
  have hdown : ∀ name ∈ down, IsName name := fun name hname =>
    hpath name (List.mem_append_right shared hname)
  have hup : ∀ name ∈ up, IsName name := fun name hname =>
    hdirectory name (List.mem_append_right shared hname)
  split
  · rename_i hnil
    obtain ⟨hups, rfl⟩ := List.append_eq_nil_iff.mp hnil
    obtain rfl := List.map_eq_nil_iff.mp hups
    exact ⟨rfl, rfl⟩
  · have hway : ∀ part ∈ up.map (fun _ => "..".text) ++ down, .char '/' ∉ part ∧ part ≠ [] := by
      intro part hpart
      rcases List.mem_append.mp hpart with hpart | hpart
      · obtain ⟨-, -, rfl⟩ := List.mem_map.mp hpart
        decide
      · exact ⟨(hdown part hpart).whole, (hdown part hpart).ne_nil⟩
    refine ⟨isAbsolute_joined (fun part hpart => (hway part hpart).1)
      fun part hpart => (hway part hpart).2, ?_⟩
    rw [walk_joined fun part hpart => (hway part hpart).1, foldl_step_way hup hdown]

omit hcurrent in
theorem trail_join
    {directory path : Text} (hdirectory : isAbsolute directory = true)
    (hpath : isAbsolute path = false) :
    trail current (join directory path) = (walk (trail current directory).reverse path).reverse := by
  rw [trail_of_absolute (isAbsolute_join hdirectory path), trail_of_absolute hdirectory,
    segments_of_absolute (isAbsolute_join hdirectory path), segments_of_absolute hdirectory,
    List.reverse_reverse, walk_join hpath]

/-- The way from a directory to a path, joined onto the directory, means what the path means. -/
theorem trail_join_relative {directory : Text} (hdirectory : isAbsolute directory = true) (path : Text) :
    trail current (join directory (relative current path directory)) = trail current path := by
  obtain ⟨hrelative, hwalk⟩ := relative_spec hcurrent path directory
  rw [trail_join hdirectory hrelative, hwalk, List.reverse_reverse]

theorem dirname_absolute (path : Text) :
    dirname (absolute current path) =
      rooted (rootMark (join current path)) (trail current path).dropLast := by
  rw [absolute_eq_rooted hcurrent, dirname_rooted (isRoot_rootMark (isAbsolute_join hcurrent path))
    (isName_trail hcurrent path)]

theorem isAbsolute_dirname (path : Text) : isAbsolute (dirname (absolute current path)) = true := by
  rw [dirname_absolute hcurrent]
  exact isAbsolute_rooted (isRoot_rootMark (isAbsolute_join hcurrent path))

/-- The way from the directory of an output to a path, joined onto this directory, has the
absolute path as its shortest spelling, but that it starts with the slashes of the output. -/
theorem normalize_join_relative (output path : Text) :
    normalize (join (dirname (absolute current output))
        (relative current path (dirname (absolute current output)))) =
      rooted (rootMark (join current output)) (trail current path) := by
  have hdirectory := isAbsolute_dirname hcurrent output
  have hroot := isRoot_rootMark (isAbsolute_join hcurrent output)
  have hnames : ∀ name ∈ (trail current output).dropLast, IsName name := fun name hname =>
    isName_trail hcurrent output name (List.mem_of_mem_dropLast hname)
  obtain ⟨hrelative, -⟩ := relative_spec hcurrent path (dirname (absolute current output))
  have htrail := trail_join_relative hcurrent hdirectory path
  rw [trail_of_absolute (isAbsolute_join hdirectory _)] at htrail
  rw [normalize_of_absolute (isAbsolute_join hdirectory _), htrail]
  congr 1
  rw [dirname_absolute hcurrent] at hrelative ⊢
  exact rootMark_join hroot hnames hrelative

/-- A path joined onto its own directory means what it means by itself if it is absolute, or
if the directory is the current one. -/
theorem trail_join_dirname
    {path : Text}
    (h : isAbsolute path = true ∨ dirname (absolute current path) = normalize current) :
    trail current (join (dirname (absolute current path)) path) = trail current path := by
  cases hpath : isAbsolute path with
  | true => rw [join, if_pos hpath]
  | false =>
      have hhere := h.resolve_left (by simp [hpath])
      have hnormal : absolute current current = normalize current := by
        rw [absolute, if_pos hcurrent]
      rw [trail_join (isAbsolute_dirname hcurrent path) hpath, hhere, ← hnormal,
        trail_absolute hcurrent, trail_of_absolute hcurrent, segments_of_absolute hcurrent,
        List.reverse_reverse, trail, segments_of_absolute (isAbsolute_join hcurrent path),
        walk_join hpath]

end Trail

/-! ## Names behind a suffix -/

theorem walk_of_notMem {segment : Text} (h : .char '/' ∉ segment) (place : List Text) :
    walk place segment = step true place segment := by
  have hsegment : ∀ part ∈ [segment], .char '/' ∉ part := by simpa using h
  have hwalk := walk_joined hsegment place
  rwa [Text.joined, List.intercalate_singleton] at hwalk

theorem trail_eq_walk {current : Text} (hcurrent : isAbsolute current = true) (path : Text) :
    trail current path =
      (walk (if isAbsolute path then [] else walk [] current) path).reverse := by
  cases hpath : isAbsolute path with
  | true => rw [trail_of_absolute hpath, segments_of_absolute hpath, if_pos rfl]
  | false =>
      rw [trail, segments_of_absolute (isAbsolute_join hcurrent path), walk_join hpath,
        if_neg Bool.false_ne_true]

/-- What is put behind a path only changes the last step of the walk to its place. -/
theorem exists_trail_append {current : Text} (hcurrent : isAbsolute current = true) (path : Text) :
    ∃ place last, .char '/' ∉ last ∧ ∀ suffix, .char '/' ∉ suffix →
      trail current (path ++ suffix) = (step true place (last ++ suffix)).reverse := by
  by_cases hslash : .char '/' ∈ path
  · obtain ⟨back, front, hreverse, hback⟩ :=
      List.eq_append_cons_of_mem (List.mem_reverse.mpr hslash)
    have hpath : path = front.reverse ++ CodePoint.char '/' :: back.reverse := by
      rw [← List.reverse_reverse path, hreverse]
      simp
    have hstart (behind : Text) : isAbsolute (front.reverse ++ CodePoint.char '/' :: behind) =
        isAbsolute (front.reverse ++ [CodePoint.char '/']) := by
      cases front.reverse <;> rfl
    refine ⟨walk (if isAbsolute (front.reverse ++ [CodePoint.char '/']) then [] else
      walk [] current) front.reverse, back.reverse, by simpa using hback, fun suffix hsuffix => ?_⟩
    rw [trail_eq_walk hcurrent, hpath, List.append_assoc, List.cons_append, hstart,
      walk_append_slash, walk_of_notMem (by simp [hback, hsuffix])]
  · refine ⟨walk [] current, path, hslash, fun suffix hsuffix => ?_⟩
    have hnot : .char '/' ∉ path ++ suffix := by simp [hslash, hsuffix]
    have hrelative : isAbsolute (path ++ suffix) = false := by
      rw [isAbsolute, decide_eq_false_iff_not]
      exact fun hhead => hnot (List.mem_of_head? hhead)
    rw [trail_eq_walk hcurrent, hrelative, if_neg Bool.false_ne_true, walk_of_notMem hnot]

/-- A path with an extension put behind it means another place. -/
theorem trail_append_ne {current : Text} (hcurrent : isAbsolute current = true) (path : Text) :
    trail current (path ++ ".map".text) ≠ trail current path := by
  obtain ⟨place, last, -, htrail⟩ := exists_trail_append hcurrent path
  have hpath := htrail [] (by simp)
  rw [List.append_nil, List.append_nil] at hpath
  have hends {other : Text} (hother : other.getLast? ≠ some (.char 'p')) :
      last ++ ".map".text ≠ other := by
    rintro rfl
    exact hother (List.getLast?_append_of_ne_nil last (by decide))
  have hnamed : step true place (last ++ ".map".text) = (last ++ ".map".text) :: place := by
    have hup : last ++ ".map".text ≠ "..".text := hends (by decide)
    have hidle : isIdle (last ++ ".map".text) = false := by
      rw [isIdle, Bool.or_eq_false_iff, decide_eq_false_iff_not, decide_eq_false_iff_not]
      exact ⟨hends (by decide), hends (by decide)⟩
    simp [step, hidle, hup]
  rw [htrail ".map".text (by decide), hpath, hnamed]
  intro h
  -- Without the extension the last step leads to another name or to a place that is less deep.
  have hsame := List.reverse_injective h
  unfold step at hsame
  split at hsame
  · exact List.cons_ne_self _ _ hsame
  · split at hsame
    · exact absurd (List.cons.inj hsame).1 (by simp [String.text])
    · split at hsame
      · simp at hsame
      · split at hsame
        · exact absurd (List.cons.inj hsame).1 (by simp [String.text])
        · exact absurd (congrArg List.length hsame) (by simp; omega)

end Path

namespace FileSystem

theorem key_eq_rooted
    {files : FileSystem} (hcurrent : Path.isAbsolute files.current = true) (path : Text) :
    files.key path = Path.rooted ['/'] (Path.trail files.current path) := by
  have hnames := Path.isName_trail hcurrent path
  have hjoined := Path.isAbsolute_joined_names hnames
  unfold key
  rw [Path.absolute_eq_rooted hcurrent]
  rcases Path.isRoot_rootMark (Path.isAbsolute_join hcurrent path) with hmark | hmark
  · rw [hmark]
    split
    · rename_i rest heq
      have hrest : Text.joined ['/'] (Path.trail files.current path) = .char '/' :: rest :=
        (List.cons.inj heq).2
      rw [hrest] at hjoined
      simp [Path.isAbsolute] at hjoined
    · rfl
  · rw [hmark]
    rfl

/-- A file system keeps two paths under one key exactly if they mean one place. -/
theorem key_eq_iff
    {files : FileSystem} (hcurrent : Path.isAbsolute files.current = true) {path path' : Text} :
    files.key path = files.key path' ↔
      Path.trail files.current path = Path.trail files.current path' := by
  rw [key_eq_rooted hcurrent, key_eq_rooted hcurrent]
  constructor
  · intro h
    have hroot : Path.IsRoot [.char '/'] := .inl rfl
    have hnames := congrArg Path.names h
    rwa [Path.names_rooted hroot (Path.isName_trail hcurrent path),
      Path.names_rooted hroot (Path.isName_trail hcurrent path')] at hnames
  · exact congrArg _

end FileSystem

end UrlRebase
