import UrlRebase.Proofs.GlobbedPaths
import UrlRebase.Proofs.GrowingWorkspace

/-!
# Files that are listed

A file system keeps files and directories under the shortest spellings of their paths.  Every
operation preserves this, and as long as it holds, what is listed in a directory is there: a
name that is listed, joined onto the directory by whatever path it is known, means something
that exists.  So whatever a pattern finds exists, and its time can be told.
-/

namespace UrlRebase

namespace Path

theorem trail_join_of_relative
    {current directory path : Text} (hcurrent : isAbsolute current = true)
    (hpath : isAbsolute path = false) :
    trail current (join directory path) = (walk (trail current directory).reverse path).reverse := by
  have hstart : isAbsolute (join directory path) = isAbsolute directory := by
    cases directory with
    | nil =>
        have hnil : isAbsolute [] = false := rfl
        simp [join, hpath, hnil]
    | cons c directory =>
        unfold join
        rw [if_neg (by simp [hpath])]
        split <;> rfl
  rw [trail_eq_walk hcurrent, trail_eq_walk hcurrent, hstart, walk_join hpath, List.reverse_reverse]

theorem trail_rooted {mark : Text} {names : List Text} (hmark : IsRoot mark)
    (hnames : ∀ name ∈ names, IsName name) (current : Text) :
    trail current (rooted mark names) = names := by
  have habsolute : isAbsolute (rooted mark names) = true := isAbsolute_rooted hmark
  rw [trail_of_absolute habsolute, segments_of_absolute habsolute, walk_rooted hmark hnames,
    List.append_nil, List.reverse_reverse]

/-- A path that ends with a slash means the place that its directory means. -/
theorem trail_dirname_of_basename_eq_nil
    {current path : Text} (hcurrent : isAbsolute current = true) (hpath : basename path = []) :
    trail current (dirname path) = trail current path := by
  obtain ⟨hdirname, -⟩ | ⟨init, c, slashes, hdirname, -, -, hslashes, hsplit⟩ := dirname_cases path
  · have hwhole := upToSlash_append_basename path
    rw [hpath, List.append_nil] at hwhole
    rw [hdirname, hwhole]
  · rw [hpath, List.append_nil] at hsplit
    have hstart : isAbsolute path = isAbsolute (init ++ [c]) := by
      rw [hsplit, isAbsolute_append_of_ne_nil (by simp)]
    rw [hdirname, trail_eq_walk hcurrent, trail_eq_walk hcurrent path, hstart]
    conv_rhs => rw [hsplit, walk_append_slashes hslashes]

theorem basename_rooted {mark : Text} (hmark : IsRoot mark) {front : List Text} {last : Text}
    (hlast : IsName last) : basename (rooted mark (front ++ [last])) = last := by
  have hroot : ∃ before, mark = before ++ [.char '/'] := by
    rcases hmark with rfl | rfl
    · exact ⟨[], rfl⟩
    · exact ⟨[.char '/'], rfl⟩
  obtain ⟨slashed, hslashed, hopen⟩ : ∃ slashed, rooted mark (front ++ [last]) = slashed ++ last ∧
      ∃ before, slashed = before ++ [.char '/'] := by
    by_cases hfront : front = []
    · exact ⟨mark, by simp [hfront, rooted, Text.joined], hroot⟩
    · refine ⟨rooted mark front ++ [.char '/'], ?_, _, rfl⟩
      simp [rooted, Text.joined_concat hfront]
  rw [hslashed, basename_append (.inr hopen), (split_of_notMem hlast.whole).2]

end Path

namespace FileSystem

open Glob

theorem isSome_lookup_iff {key : Text} {entries : List (Text × File)} :
    (entries.lookup key).isSome = true ↔ key ∈ entries.map Prod.fst := by
  induction entries with
  | nil => simp
  | cons entry entries ih =>
      rw [List.lookup_cons, List.map_cons, List.mem_cons]
      by_cases hkey : key = entry.1
      · simp [hkey]
      · simp [beq_false_of_ne hkey, hkey, ih]

/-- The paths under which something is kept. -/
def keptPaths (files : FileSystem) : List Text :=
  files.files.map Prod.fst ++ files.directories

theorem exists?_iff_mem_keptPaths {files : FileSystem} {path : Text} :
    files.exists? path = true ↔ files.key path ∈ files.keptPaths := by
  rw [exists?, Bool.or_eq_true, isFile, file?, isSome_lookup_iff, isDirectory,
    List.contains_iff_mem, keptPaths, List.mem_append]

theorem list_eq (files : FileSystem) (directory : Text) :
    files.list directory =
      if files.isDirectory directory then files.keptPaths.filterMap fun path =>
        if path ≠ "/".text ∧ Path.dirname path = files.key directory then
          some (Path.basename path) else none
      else [] := by
  rw [keptPaths, List.filterMap_append, List.filterMap_map]
  rfl

/-- What a directory lists are the last names of the paths that are kept in it. -/
theorem mem_list_iff {files : FileSystem} {directory name : Text} :
    name ∈ files.list directory ↔ files.isDirectory directory = true ∧
      ∃ path ∈ files.keptPaths, path ≠ "/".text ∧ Path.dirname path = files.key directory ∧
        Path.basename path = name := by
  rw [list_eq]
  cases hthere : files.isDirectory directory with
  | false => simp
  | true =>
      rw [if_pos rfl, List.mem_filterMap]
      simp [and_assoc]

/-- Whether everything is kept under the shortest spelling of its path. -/
structure IsKeyed (files : FileSystem) : Prop where
  current : Path.isAbsolute files.current = true
  kept : ∀ path ∈ files.keptPaths, files.key path = path

section Keyed

variable {files : FileSystem}

theorem key_rooted (hcurrent : Path.isAbsolute files.current = true) {names : List Text}
    (hnames : ∀ name ∈ names, Path.IsName name) :
    files.key (Path.rooted [.char '/'] names) = Path.rooted [.char '/'] names := by
  have hroot : Path.IsRoot [.char '/'] := .inl rfl
  rw [key_eq_rooted hcurrent, Path.trail_rooted hroot hnames]

theorem key_key (hcurrent : Path.isAbsolute files.current = true) (path : Text) :
    files.key (files.key path) = files.key path := by
  conv_lhs => rw [key_eq_rooted hcurrent path]
  rw [key_rooted hcurrent (Path.isName_trail hcurrent path), key_eq_rooted hcurrent path]

theorem key_of_mem_ancestors
    (hcurrent : Path.isAbsolute files.current = true) {names : List Text}
    (hnames : ∀ name ∈ names, Path.IsName name) {path : Text}
    (hpath : path ∈ ancestors (Path.rooted [.char '/'] names)) : files.key path = path := by
  have hroot : Path.IsRoot [.char '/'] := .inl rfl
  rw [ancestors, Path.names_rooted hroot hnames] at hpath
  obtain ⟨count, -, rfl⟩ := List.mem_map.mp hpath
  exact key_rooted hcurrent fun name hname => hnames name (List.mem_of_mem_take hname)

theorem forall_key_addDirectories
    {directories added : List Text} (hdirectories : ∀ path ∈ directories, files.key path = path)
    (hadded : ∀ path ∈ added, files.key path = path) :
    ∀ path ∈ addDirectories directories added, files.key path = path := by
  intro path hpath
  rcases List.mem_append.mp hpath with hpath | hpath
  · exact hdirectories path hpath
  · exact hadded path (List.mem_of_mem_filter hpath)

theorem mem_keys_put_iff {key other : Text} {file : File} {entries : List (Text × File)} :
    other ∈ (put key file entries).map Prod.fst ↔
      other = key ∨ other ∈ entries.map Prod.fst := by
  induction entries with
  | nil => simp [put]
  | cons entry entries ih =>
      unfold put
      split
      · rename_i hentry
        simp [hentry]
      · rw [List.map_cons, List.map_cons, List.mem_cons, ih, List.mem_cons, or_left_comm]

theorem isKeyed_empty {current : Text} (hcurrent : Path.isAbsolute current = true) :
    (empty current).IsKeyed where
  current := hcurrent
  kept := by
    intro path hpath
    obtain rfl := List.mem_singleton.mp hpath
    exact @key_rooted (empty current) hcurrent [] (by simp)

variable (h : files.IsKeyed)
include h

theorem IsKeyed.key_of_mem_files {path : Text} (hpath : path ∈ files.files.map Prod.fst) :
    files.key path = path :=
  h.kept path (List.mem_append_left _ hpath)

theorem IsKeyed.key_of_mem_directories {path : Text} (hpath : path ∈ files.directories) :
    files.key path = path :=
  h.kept path (List.mem_append_right _ hpath)

theorem IsKeyed.makeDirectories (path : Text) : (files.makeDirectories path).IsKeyed where
  current := h.current
  kept := by
    refine List.forall_mem_append.mpr ⟨fun _ => h.key_of_mem_files, ?_⟩
    refine forall_key_addDirectories (fun _ => h.key_of_mem_directories) fun above habove => ?_
    rw [key_eq_rooted h.current] at habove
    exact key_of_mem_ancestors h.current (Path.isName_trail h.current path) habove

theorem IsKeyed.place (path : Text) (file : File) : (files.place path file).IsKeyed where
  current := h.current
  kept := by
    have hroot : Path.IsRoot [.char '/'] := .inl rfl
    have hnames := Path.isName_trail h.current path
    refine List.forall_mem_append.mpr ⟨fun other hother => ?_, ?_⟩
    · rcases mem_keys_put_iff.mp hother with rfl | hother
      · exact key_key h.current path
      · exact h.key_of_mem_files hother
    · refine forall_key_addDirectories (fun _ => h.key_of_mem_directories) fun above habove => ?_
      rw [key_eq_rooted h.current, Path.dirname_rooted hroot hnames] at habove
      exact key_of_mem_ancestors h.current
        (fun name hname => hnames name (List.mem_of_mem_dropLast hname)) habove

theorem IsKeyed.write {after : FileSystem} {path : Text} {bytes : ByteArray}
    (hwrite : files.write path bytes = .ok after) : after.IsKeyed := by
  unfold FileSystem.write at hwrite
  split at hwrite
  · cases hwrite
  · obtain rfl := Except.ok.inj hwrite
    have hclock : IsKeyed { files with clock := files.clock + 1 } := ⟨h.current, h.kept⟩
    exact hclock.place path _

theorem IsKeyed.remove (path : Text) : (files.remove path).IsKeyed where
  current := h.current
  kept := by
    refine List.forall_mem_append.mpr ⟨fun other hother => ?_, fun _ => h.key_of_mem_directories⟩
    exact h.key_of_mem_files (List.map_subset Prod.fst (List.filter_subset_self _) hother)

/-! ## What is listed -/

/-- A path that is kept in a directory is what its last name means there. -/
theorem key_join_basename {directory path : Text} (hkey : files.key path = path)
    (hpath : path ≠ "/".text) (hdirectory : Path.dirname path = files.key directory) :
    files.key (Path.join directory (Path.basename path)) = path := by
  have hroot : Path.IsRoot [.char '/'] := .inl rfl
  have hnames := Path.isName_trail h.current path
  rw [key_eq_rooted h.current] at hkey
  rw [← hkey] at hpath hdirectory ⊢
  rcases List.eq_nil_or_concat' (Path.trail files.current path) with hnil | ⟨front, last, hsplit⟩
  · -- The root is in no directory.
    rw [hnil] at hpath
    exact absurd rfl hpath
  · rw [hsplit] at hnames hdirectory ⊢
    have hlast := hnames last (by simp)
    have hfront : ∀ name ∈ front, Path.IsName name := fun name hname =>
      hnames name (List.mem_append_left _ hname)
    rw [Path.dirname_rooted hroot hnames, List.dropLast_concat, key_eq_rooted h.current] at hdirectory
    have hplace := congrArg Path.names hdirectory
    rw [Path.names_rooted hroot hfront, Path.names_rooted hroot (Path.isName_trail h.current directory)]
      at hplace
    have hstep : Path.step true front.reverse last = last :: front.reverse := by
      simp [Path.step, hlast.moves, hlast.down]
    rw [Path.basename_rooted hroot hlast, key_eq_rooted h.current,
      Path.trail_join_of_relative h.current (Path.isAbsolute_of_notMem hlast.whole), ← hplace,
      Path.walk_of_notMem hlast.whole, hstep]
    simp

theorem IsKeyed.exists?_of_mem_list {directory name : Text} (hname : name ∈ files.list directory) :
    files.exists? (Path.join directory name) = true := by
  obtain ⟨-, path, hkept, hpath, hdirectory, rfl⟩ := mem_list_iff.mp hname
  rw [exists?_iff_mem_keptPaths, key_join_basename h (h.kept path hkept) hpath hdirectory]
  exact hkept

theorem IsKeyed.exists?_of_isThere {path : Text} (hthere : files.isThere path = true) :
    files.exists? path = true := by
  unfold isThere at hthere
  split at hthere
  · rename_i hpath
    have hkey : files.key (Path.dirname path) = files.key path :=
      (key_eq_iff h.current).mpr (Path.trail_dirname_of_basename_eq_nil h.current hpath)
    rw [isDirectory, hkey] at hthere
    exact exists?_iff.mpr (.inr hthere)
  · exact hthere

theorem IsKeyed.exists?_of_names {directory segment name : Text} {onlyDirectories : Bool}
    (hname : files.Names onlyDirectories directory segment name) :
    files.exists? (Path.join directory name) = true := by
  cases hname with
  | here hthere =>
      have hkey : files.key (Path.join directory []) = files.key directory := by
        rw [key_eq_iff h.current, Path.trail_join_of_relative h.current rfl, Path.walk_nil,
          List.reverse_reverse]
      rw [exists?_iff, hkey]
      exact .inr hthere
  | itself hplain hne hthere => exact hthere
  | matched hwild hlisted hmatches honly => exact h.exists?_of_mem_list hlisted

/-- Whatever a pattern finds is there. -/
theorem IsKeyed.exists?_of_finds {directory pattern path : Text} {onlyDirectories : Bool}
    (hfinds : files.Finds directory onlyDirectories pattern path) : files.exists? path = true := by
  cases hfinds with
  | plain hplain hthere => exact h.exists?_of_isThere hthere
  | under hwild hfront hname => exact h.exists?_of_names hname
  | through hwild hfront hfound hname => exact h.exists?_of_names hname

end Keyed

end FileSystem

end UrlRebase
