import UrlRebase.FileSystem.Glob
import UrlRebase.Proofs.RelativeWays
import UrlRebase.Proofs.SourceDirectories

/-!
# Paths that patterns find

A pattern is followed from a directory, one segment after the other.  A segment without a
wildcard stands for itself, and one with a wildcard for each name in the directory reached
so far that is cut into what the items of the segment spell.  The directory that the search
starts from is no part of the pattern: where its own name has no wildcard, globbing the
pattern joined onto it finds exactly these paths.
-/

namespace UrlRebase

namespace Glob

/-! ## Names that patterns match -/

/-- Whether an item of a pattern stands for a part of a name. -/
def Item.Spells : Item → Text → Prop
  | .star, _ => True
  | item, part => ∃ c, part = [c] ∧ item.takes c = true

theorem Item.spells_iff {item : Item} (hitem : item ≠ .star) {part : Text} :
    item.Spells part ↔ ∃ c, part = [c] ∧ item.takes c = true := by
  cases item <;> first | exact absurd rfl hitem | rfl

/-- Whether a name can be cut into parts that the items of a pattern stand for, in order. -/
def SpelledBy (items : List Item) (name : Text) : Prop :=
  ∃ parts, List.Forall₂ Item.Spells items parts ∧ parts.flatten = name

theorem spelledBy_nil_iff {name : Text} : SpelledBy [] name ↔ name = [] := by
  constructor
  · rintro ⟨parts, hparts, rfl⟩
    cases hparts
    rfl
  · rintro rfl
    exact ⟨[], .nil, rfl⟩

theorem spelledBy_cons_iff {item : Item} {items : List Item} {name : Text} :
    SpelledBy (item :: items) name ↔
      ∃ part rest, item.Spells part ∧ SpelledBy items rest ∧ name = part ++ rest := by
  constructor
  · rintro ⟨_, hparts, rfl⟩
    obtain _ | ⟨hpart, hrest⟩ := hparts
    exact ⟨_, _, hpart, ⟨_, hrest, rfl⟩, rfl⟩
  · rintro ⟨part, rest, hpart, ⟨parts, hparts, rfl⟩, rfl⟩
    exact ⟨part :: parts, .cons hpart hparts, rfl⟩

/-- A star takes nothing, or one more character. -/
theorem spelledBy_star_iff {items : List Item} {name : Text} :
    SpelledBy (.star :: items) name ↔
      SpelledBy items name ∨ ∃ c rest, name = c :: rest ∧ SpelledBy (.star :: items) rest := by
  rw [spelledBy_cons_iff]
  constructor
  · rintro ⟨part, rest, -, hrest, rfl⟩
    cases part with
    | nil => exact .inl hrest
    | cons c part =>
        exact .inr ⟨c, part ++ rest, rfl, spelledBy_cons_iff.mpr ⟨part, rest, trivial, hrest, rfl⟩⟩
  · rintro (hname | ⟨c, rest, rfl, hrest⟩)
    · exact ⟨[], name, trivial, hname, rfl⟩
    · obtain ⟨part, behind, -, hbehind, rfl⟩ := spelledBy_cons_iff.mp hrest
      exact ⟨c :: part, behind, trivial, hbehind, rfl⟩

theorem spelledBy_cons_iff_takes {item : Item} (hitem : item ≠ .star) {items : List Item}
    {name : Text} :
    SpelledBy (item :: items) name ↔
      ∃ c rest, name = c :: rest ∧ item.takes c = true ∧ SpelledBy items rest := by
  simp only [spelledBy_cons_iff, Item.spells_iff hitem]
  constructor
  · rintro ⟨_, rest, ⟨c, rfl, htakes⟩, hrest, rfl⟩
    exact ⟨c, rest, rfl, htakes, hrest⟩
  · rintro ⟨c, rest, rfl, htakes, hrest⟩
    exact ⟨[c], rest, ⟨c, rfl, htakes⟩, hrest, rfl⟩

theorem matchesAll_iff (items : List Item) (name : Text) :
    matchesAll items name = true ↔ SpelledBy items name := by
  induction items, name using matchesAll.induct with
  | case1 => simp [matchesAll, spelledBy_nil_iff]
  | case2 => simp [matchesAll, spelledBy_nil_iff]
  | case3 rest ih =>
      rw [matchesAll, ih, spelledBy_star_iff]
      simp
  | case4 rest c name ih ih' =>
      rw [matchesAll, Bool.or_eq_true, ih, ih']
      conv_rhs => rw [spelledBy_star_iff]
      simp
  | case5 item rest hitem =>
      rw [spelledBy_cons_iff_takes (by simpa using hitem)]
      simp [matchesAll]
  | case6 item rest c name hitem ih =>
      rw [spelledBy_cons_iff_takes (by simpa using hitem)]
      simp [matchesAll, ih]

/-- Whether a segment of a pattern matches a name.  A name that starts with a dot wants a
pattern that does. -/
structure Matches (pattern name : Text) : Prop where
  hidden : isHidden name = true → isHidden pattern = true
  spelled : SpelledBy (items pattern.length pattern) name

theorem matchesName_iff {pattern name : Text} :
    matchesName pattern name = true ↔ Matches pattern name := by
  rw [matchesName, Bool.and_eq_true, matchesAll_iff]
  constructor
  · rintro ⟨hhidden, hspelled⟩
    exact ⟨fun h => by simpa [h] using hhidden, hspelled⟩
  · rintro ⟨hhidden, hspelled⟩
    refine ⟨?_, hspelled⟩
    cases hname : isHidden name with
    | false => simp
    | true => simp [hhidden hname]

end Glob

namespace Path

/-! ## Patterns behind a directory -/

/-- A path joined onto a directory stands behind nothing or behind a slash. -/
theorem exists_join_eq (directory path : Text) :
    ∃ front, join directory path = front ++ path ∧
      (front = [] ∨ ∃ before, front = before ++ [.char '/']) := by
  unfold join
  split
  · exact ⟨[], rfl, .inl rfl⟩
  · split
    · rename_i hdirectory
      exact ⟨directory, rfl, hdirectory.imp_right List.getLast?_eq_some_iff.mp⟩
    · exact ⟨directory ++ "/".text, rfl, .inr ⟨directory, rfl⟩⟩

theorem basename_append {front : Text} (hfront : front = [] ∨ ∃ before, front = before ++ [.char '/'])
    (path : Text) : basename (front ++ path) = basename path := by
  rcases hfront with rfl | ⟨before, rfl⟩
  · rfl
  · rw [basename, basename, List.reverse_append, List.takeWhile_append]
    split
    · rename_i hlength
      rw [(List.takeWhile_prefix _).eq_of_length hlength]
      simp
    · rfl

theorem basename_join (directory path : Text) :
    basename (join directory path) = basename path := by
  obtain ⟨front, hjoin, hfront⟩ := exists_join_eq directory path
  rw [hjoin, basename_append hfront]

theorem notMem_basename (path : Text) : .char '/' ∉ basename path := by
  intro hmem
  simpa using List.mem_takeWhile_imp (List.mem_reverse.mp hmem)

theorem upToSlash_eq_of_append {front last : Text} (hlast : .char '/' ∉ last)
    (hfront : front = [] ∨ ∃ before, front = before ++ [.char '/']) :
    upToSlash (front ++ last) = front := by
  rcases hfront with rfl | ⟨before, rfl⟩
  · rw [List.nil_append, upToSlash, List.reverse_eq_nil_iff, List.dropWhile_eq_nil_iff]
    intro c hc
    rw [decide_eq_true_eq]
    rintro rfl
    exact hlast (List.mem_reverse.mp hc)
  · rw [List.append_assoc]
    exact upToSlash_append hlast before

theorem split_of_notMem {name : Text} (hname : .char '/' ∉ name) :
    dirname name = [] ∧ basename name = name := by
  have hup : upToSlash name = [] := by simpa using upToSlash_eq_of_append hname (.inl rfl)
  have hwhole := upToSlash_append_basename name
  rw [hup, List.nil_append] at hwhole
  exact ⟨by rw [dirname, hup]; rfl, hwhole⟩

/-- What is before the last slashes of a path is its directory. -/
theorem dirname_eq_of_append {init slashes last : Text} {c : CodePoint} (hc : c ≠ .char '/')
    (hslashes : ∀ slash ∈ slashes, slash = .char '/') (hne : slashes ≠ [])
    (hlast : .char '/' ∉ last) :
    dirname (init ++ [c] ++ slashes ++ last) = init ++ [c] := by
  obtain ⟨before, slash, rfl⟩ := (List.eq_nil_or_concat' slashes).resolve_left hne
  obtain rfl := hslashes slash (by simp)
  have hup : upToSlash (init ++ [c] ++ (before ++ [.char '/']) ++ last) =
      init ++ [c] ++ (before ++ [.char '/']) :=
    upToSlash_eq_of_append hlast (.inr ⟨init ++ [c] ++ before, by simp⟩)
  have hmore : (init ++ [c] ++ (before ++ [CodePoint.char '/'])).all (· = .char '/') = false := by
    simp [hc]
  have hdrop : (before ++ [CodePoint.char '/']).reverse.dropWhile (· = CodePoint.char '/') = [] :=
    List.dropWhile_eq_nil_iff.mpr fun slash hslash => by
      simpa using hslashes slash (List.mem_reverse.mp hslash)
  rw [dirname]
  simp only [hup, hmore, Bool.false_eq_true, if_false, Text.trimRight]
  rw [List.reverse_append, List.dropWhile_append, hdrop]
  simp [hc]

/-- The directory of a path is slashes alone or ends with something else. -/
theorem dirname_cases (path : Text) :
    (dirname path = upToSlash path ∧ ∀ c ∈ dirname path, c = .char '/') ∨
      ∃ init c slashes, dirname path = init ++ [c] ∧ c ≠ .char '/' ∧ slashes ≠ [] ∧
        (∀ slash ∈ slashes, slash = .char '/') ∧
        path = init ++ [c] ++ slashes ++ basename path := by
  by_cases hall : (upToSlash path).all (· = .char '/') = true
  · have hdirname : dirname path = upToSlash path := by rw [dirname, if_pos hall]
    rw [hdirname]
    exact .inl ⟨rfl, by simpa using hall⟩
  · have hdirname : dirname path = Text.trimRight (· = .char '/') (upToSlash path) := by
      rw [dirname, if_neg hall]
    have hne : upToSlash path ≠ [] := fun hnil => hall (by rw [hnil]; rfl)
    obtain ⟨before, hbefore⟩ :=
      List.getLast?_eq_some_iff.mp ((upToSlash_cases path).resolve_left hne)
    have hsplit := List.takeWhile_append_dropWhile (p := (· = CodePoint.char '/'))
      (l := (upToSlash path).reverse)
    cases hdrop : (upToSlash path).reverse.dropWhile (· = CodePoint.char '/') with
    | nil =>
        rw [List.dropWhile_eq_nil_iff] at hdrop
        exact absurd (by simpa using hdrop) hall
    | cons c init =>
        have hc : c ≠ .char '/' := by
          simpa [hdrop] using
            List.head?_dropWhile_not (· = CodePoint.char '/') (upToSlash path).reverse
        refine .inr ⟨init.reverse, c,
          ((upToSlash path).reverse.takeWhile (· = CodePoint.char '/')).reverse, ?_, hc, ?_, ?_, ?_⟩
        · rw [hdirname, Text.trimRight, hdrop, List.reverse_cons]
        · simp [hbefore]
        · intro slash hslash
          simpa using List.mem_takeWhile_imp (List.mem_reverse.mp hslash)
        · rw [hdrop] at hsplit
          have hup := congrArg List.reverse hsplit
          rw [List.reverse_append, List.reverse_reverse, List.reverse_cons] at hup
          rw [hup, upToSlash_append_basename]

theorem dirname_length_lt {path : Text} {c : CodePoint} (hmem : c ∈ path) (hc : c ≠ .char '/') :
    (dirname path).length < path.length := by
  have hwhole := congrArg List.length (upToSlash_append_basename path)
  rw [List.length_append] at hwhole
  obtain ⟨hdirname, hall⟩ | ⟨init, d, slashes, hdirname, -, hne, -, hpath⟩ := dirname_cases path
  · rw [hdirname] at hall ⊢
    have hbase : c ∈ basename path := by
      rw [← upToSlash_append_basename path, List.mem_append] at hmem
      exact hmem.resolve_left fun hup => hc (hall c hup)
    have := List.length_pos_of_mem hbase
    omega
  · have := congrArg List.length hpath
    have := List.length_pos_of_ne_nil hne
    rw [hdirname]
    simp only [List.length_append] at *
    omega

/-- What a path spells behind its directory stays there when another directory is put before. -/
theorem dirname_join {path : Text} (hpath : dirname path ≠ []) (directory : Text) :
    dirname (join directory path) = join directory (dirname path) := by
  obtain ⟨hdirname, hall⟩ | ⟨init, c, slashes, hdirname, hc, hne, hslashes, hsplit⟩ :=
    dirname_cases path
  · obtain ⟨slash, rest, hrest⟩ := List.exists_cons_of_ne_nil hpath
    obtain rfl := hall slash (by rw [hrest]; exact List.mem_cons_self)
    have habsolute : isAbsolute (dirname path) = true := by rw [hrest]; rfl
    have hwhole : isAbsolute path = true := by
      rw [hdirname] at hpath habsolute
      rw [← upToSlash_append_basename path, isAbsolute_append_of_ne_nil hpath, habsolute]
    rw [join, if_pos hwhole, join, if_pos habsolute]
  · have hstart : isAbsolute (init ++ [c] ++ (slashes ++ basename path)) =
        isAbsolute (init ++ [c]) := isAbsolute_append_of_ne_nil (by simp) _
    obtain ⟨front, hfront, -⟩ := exists_join_eq directory (init ++ [c])
    rw [hdirname]
    conv_lhs => rw [hsplit, List.append_assoc (init ++ [c]), join_append hstart, hfront,
      ← List.append_assoc, ← List.append_assoc front]
    rw [dirname_eq_of_append hc hslashes hne (notMem_basename path), hfront, List.append_assoc]

/-- A name joined onto the directory of a path is in that directory. -/
theorem dirname_join_of_dirname_eq_nil {path : Text} (hpath : dirname path = []) (origin : Text) :
    dirname (join (dirname origin) path) = dirname origin := by
  have hname : .char '/' ∉ path := by
    obtain ⟨hdirname, -⟩ | ⟨init, c, slashes, hdirname, -⟩ := dirname_cases path
    · have hwhole := upToSlash_append_basename path
      rw [← hdirname, hpath, List.nil_append] at hwhole
      exact hwhole ▸ notMem_basename path
    · rw [hpath] at hdirname
      simp at hdirname
  have hrelative := isAbsolute_of_notMem hname
  obtain ⟨hdirname, hall⟩ | ⟨init, c, slashes, hdirname, hc, -⟩ := dirname_cases origin
  · have hopen := upToSlash_cases origin
    rw [← hdirname] at hopen
    have hjoin : join (dirname origin) path = dirname origin ++ path := by
      rw [join, if_neg (by simp [hrelative]), if_pos hopen]
    have hup : upToSlash (dirname origin ++ path) = dirname origin :=
      upToSlash_eq_of_append hname (hopen.imp_right List.getLast?_eq_some_iff.mp)
    rw [hjoin, dirname, hup, if_pos (by simpa using hall)]
  · have hjoin : join (dirname origin) path = init ++ [c] ++ "/".text ++ path := by
      rw [join, if_neg (by simp [hrelative]), hdirname, if_neg (by simp [hc])]
    rw [hjoin, dirname_eq_of_append hc (by simp [String.text]) (by simp [String.text]) hname, hdirname]

/-- Where the front of a pattern leads from a directory. -/
def below (directory front : Text) : Text :=
  if front = [] then directory else join directory front

theorem dirname_join_dirname (origin path : Text) :
    dirname (join (dirname origin) path) = below (dirname origin) (dirname path) := by
  unfold below
  split
  · rename_i hpath
    exact dirname_join_of_dirname_eq_nil hpath origin
  · rename_i hpath
    exact dirname_join hpath (dirname origin)

end Path

namespace Glob

theorem hasWildcard_append (front behind : Text) :
    hasWildcard (front ++ behind) = (hasWildcard front || hasWildcard behind) :=
  List.any_append

theorem hasWildcard_join {directory : Text} (hdirectory : hasWildcard directory = false)
    (pattern : Text) : hasWildcard (Path.join directory pattern) = hasWildcard pattern := by
  have hslash : hasWildcard "/".text = false := by decide
  unfold Path.join
  split
  · rfl
  · split <;> simp [hasWildcard_append, hdirectory, hslash]

/-- A pattern with a wildcard is longer than its front. -/
theorem dirname_length_lt {pattern : Text} (hpattern : hasWildcard pattern = true) :
    (Path.dirname pattern).length < pattern.length := by
  obtain ⟨c, hmem, hc⟩ := List.any_eq_true.mp hpattern
  refine Path.dirname_length_lt hmem ?_
  rintro rfl
  simp at hc

end Glob

open Glob

namespace FileSystem

/-! ## Paths that patterns find -/

/-- Whether there is something at a path; one with a slash at its end means a directory. -/
def isThere (files : FileSystem) (path : Text) : Bool :=
  if Path.basename path = [] then files.isDirectory (Path.dirname path) else files.exists? path

section Finds

variable (files : FileSystem)

/-- Whether a segment of a pattern stands for a name in a directory, which has to be the name
of a directory if so asked. -/
inductive Names (onlyDirectories : Bool) (directory : Text) : Text → Text → Prop
  | here (hthere : files.isDirectory directory = true) : Names onlyDirectories directory [] []
  | itself {name : Text} (hplain : hasWildcard name = false) (hne : name ≠ [])
      (hthere : files.exists? (Path.join directory name) = true) :
      Names onlyDirectories directory name name
  | matched {pattern name : Text} (hwild : hasWildcard pattern = true)
      (hlisted : name ∈ files.list directory) (hmatches : Matches pattern name)
      (honly : onlyDirectories = true → files.isDirectory (Path.join directory name) = true) :
      Names onlyDirectories directory pattern name

/-- Whether a pattern leads from a directory, whose own name is no pattern, to a path. -/
inductive Finds (directory : Text) : Bool → Text → Text → Prop
  | plain {onlyDirectories : Bool} {pattern : Text} (hplain : hasWildcard pattern = false)
      (hthere : files.isThere (Path.join directory pattern) = true) :
      Finds directory onlyDirectories pattern (Path.join directory pattern)
  | under {onlyDirectories : Bool} {pattern name : Text} (hwild : hasWildcard pattern = true)
      (hfront : hasWildcard (Path.dirname pattern) = false)
      (hname : files.Names onlyDirectories (Path.below directory (Path.dirname pattern))
        (Path.basename pattern) name) :
      Finds directory onlyDirectories pattern
        (Path.join (Path.below directory (Path.dirname pattern)) name)
  | through {onlyDirectories : Bool} {pattern found name : Text}
      (hwild : hasWildcard pattern = true)
      (hfront : hasWildcard (Path.dirname pattern) = true)
      (hfound : Finds directory true (Path.dirname pattern) found)
      (hname : files.Names onlyDirectories found (Path.basename pattern) name) :
      Finds directory onlyDirectories pattern (Path.join found name)

variable {files} {onlyDirectories : Bool}

theorem names_of_wild_iff {directory pattern name : Text} (hwild : hasWildcard pattern = true) :
    files.Names onlyDirectories directory pattern name ↔
      name ∈ files.list directory ∧ Matches pattern name ∧
        (onlyDirectories = true → files.isDirectory (Path.join directory name) = true) := by
  constructor
  · rintro (_ | ⟨hplain, -, -⟩ | ⟨-, hlisted, hmatches, honly⟩)
    · cases hwild
    · simp [hwild] at hplain
    · exact ⟨hlisted, hmatches, honly⟩
  · rintro ⟨hlisted, hmatches, honly⟩
    exact .matched hwild hlisted hmatches honly

/-- Behind the last slash of a pattern a directory stands for itself. -/
theorem names_nil_iff {directory name : Text} :
    files.Names onlyDirectories directory [] name ↔
      files.isDirectory directory = true ∧ name = [] := by
  constructor
  · rintro (hthere | ⟨-, hne, -⟩ | ⟨hwild, -, -, -⟩)
    · exact ⟨hthere, rfl⟩
    · exact absurd rfl hne
    · cases hwild
  · rintro ⟨hthere, rfl⟩
    exact .here hthere

theorem names_of_plain_iff {directory pattern name : Text} (hplain : hasWildcard pattern = false)
    (hne : pattern ≠ []) :
    files.Names onlyDirectories directory pattern name ↔
      files.exists? (Path.join directory pattern) = true ∧ name = pattern := by
  constructor
  · rintro (_ | ⟨-, -, hthere⟩ | ⟨hwild, -, -, -⟩)
    · exact absurd rfl hne
    · exact ⟨hthere, rfl⟩
    · simp [hplain] at hwild
  · rintro ⟨hthere, rfl⟩
    exact .itself hplain hne hthere

theorem mem_globNames_iff {directory pattern name : Text} :
    name ∈ files.globNames onlyDirectories directory pattern ↔
      files.Names onlyDirectories directory pattern name := by
  unfold globNames
  by_cases hwild : hasWildcard pattern = true
  · rw [if_pos hwild, names_of_wild_iff hwild, List.mem_eraseDups, List.mem_filter,
      Bool.and_eq_true, matchesName_iff]
    cases onlyDirectories <;> simp
  · rw [if_neg hwild]
    by_cases hnil : pattern = []
    · subst hnil
      rw [if_pos rfl, names_nil_iff]
      split <;> simp [*]
    · rw [if_neg hnil, names_of_plain_iff (Bool.not_eq_true _ |>.mp hwild) hnil]
      split <;> simp [*]

theorem finds_of_plain_iff {directory pattern path : Text} (hplain : hasWildcard pattern = false) :
    files.Finds directory onlyDirectories pattern path ↔
      files.isThere (Path.join directory pattern) = true ∧ path = Path.join directory pattern := by
  constructor
  · rintro (⟨-, hthere⟩ | ⟨hwild, -, -⟩ | ⟨hwild, -, -, -⟩)
    · exact ⟨hthere, rfl⟩
    · simp [hplain] at hwild
    · simp [hplain] at hwild
  · rintro ⟨hthere, rfl⟩
    exact .plain hplain hthere

/-- What a pattern with a wildcard finds is named by its last segment in a directory to which
its front leads. -/
theorem finds_of_wild_iff {directory pattern path : Text} (hwild : hasWildcard pattern = true) :
    files.Finds directory onlyDirectories pattern path ↔
      ∃ base name, files.Names onlyDirectories base (Path.basename pattern) name ∧
        path = Path.join base name ∧
        if hasWildcard (Path.dirname pattern) = true then
          files.Finds directory true (Path.dirname pattern) base
        else base = Path.below directory (Path.dirname pattern) := by
  constructor
  · rintro (⟨hplain, -⟩ | ⟨-, hfront, hname⟩ | ⟨-, hfront, hfound, hname⟩)
    · simp [hwild] at hplain
    · exact ⟨_, _, hname, rfl, by rw [if_neg (by simp [hfront])]⟩
    · exact ⟨_, _, hname, rfl, by rwa [if_pos hfront]⟩
  · rintro ⟨base, name, hname, rfl, hbase⟩
    split at hbase
    · rename_i hfront
      exact .through hwild hfront hbase hname
    · rename_i hfront
      subst hbase
      exact .under hwild (by simpa using hfront) hname

/-- A pattern without a slash finds the names in the directory that it matches. -/
theorem finds_iff_of_notMem {directory pattern path : Text} (hwild : hasWildcard pattern = true)
    (hpattern : .char '/' ∉ pattern) :
    files.Finds directory onlyDirectories pattern path ↔
      ∃ name ∈ files.list directory, Matches pattern name ∧ path = Path.join directory name ∧
        (onlyDirectories = true → files.isDirectory path = true) := by
  obtain ⟨hdirname, hbasename⟩ := Path.split_of_notMem hpattern
  have hfront : hasWildcard [] = false := rfl
  rw [finds_of_wild_iff hwild, hdirname, hbasename, hfront]
  simp only [Bool.false_eq_true, if_false, Path.below, if_true, names_of_wild_iff hwild]
  constructor
  · rintro ⟨_, name, ⟨hlisted, hmatches, honly⟩, rfl, rfl⟩
    exact ⟨name, hlisted, hmatches, rfl, honly⟩
  · rintro ⟨name, hlisted, hmatches, rfl, honly⟩
    exact ⟨directory, name, ⟨hlisted, hmatches, honly⟩, rfl, rfl⟩

theorem mem_flatMap_globNames {directories : List Text} {pattern path : Text} :
    path ∈ directories.flatMap (fun base =>
        (files.globNames onlyDirectories base pattern).map (Path.join base)) ↔
      ∃ base name, files.Names onlyDirectories base pattern name ∧ path = Path.join base name ∧
        base ∈ directories := by
  simp only [List.mem_flatMap, List.mem_map, mem_globNames_iff]
  constructor
  · rintro ⟨base, hbase, name, hname, rfl⟩
    exact ⟨base, name, hname, rfl, hbase⟩
  · rintro ⟨base, name, hname, rfl, hbase⟩
    exact ⟨base, hbase, name, hname, rfl⟩

/-- A segment without a directory before it is looked for in the current directory. -/
theorem globNames_nil (pattern : Text) :
    files.globNames onlyDirectories [] pattern =
      [[]].flatMap fun base => (files.globNames onlyDirectories base pattern).map (Path.join base) := by
  have hjoin : Path.join [] = id := by
    funext path
    simp [Path.join]
  simp [hjoin]

theorem globWithin_succ (depth : Nat) (pattern : Text) :
    files.globWithin onlyDirectories (depth + 1) pattern =
      if !hasWildcard pattern then if files.isThere pattern then [pattern] else []
      else if Path.dirname pattern = [] then
        files.globNames onlyDirectories [] (Path.basename pattern)
      else
        (if Path.dirname pattern ≠ pattern ∧ hasWildcard (Path.dirname pattern) = true then
          files.globWithin true depth (Path.dirname pattern)
        else [Path.dirname pattern]).flatMap fun base =>
          (files.globNames onlyDirectories base (Path.basename pattern)).map (Path.join base) :=
  rfl

theorem mem_globWithin_succ_of_plain {pattern path : Text} (hplain : hasWildcard pattern = false)
    (depth : Nat) :
    path ∈ files.globWithin onlyDirectories (depth + 1) pattern ↔
      files.isThere pattern = true ∧ path = pattern := by
  rw [globWithin_succ, hplain]
  by_cases hthere : files.isThere pattern = true <;> simp [hthere]

/-- One step of globbing: the last segment in each directory to which the front leads. -/
theorem mem_globWithin_succ_iff {pattern path : Text} (hwild : hasWildcard pattern = true)
    (depth : Nat) :
    path ∈ files.globWithin onlyDirectories (depth + 1) pattern ↔
      ∃ base name, files.Names onlyDirectories base (Path.basename pattern) name ∧
        path = Path.join base name ∧
        if hasWildcard (Path.dirname pattern) = true then
          base ∈ files.globWithin true depth (Path.dirname pattern)
        else base = Path.dirname pattern := by
  have hother : Path.dirname pattern ≠ pattern := fun h =>
    absurd (congrArg List.length h) (Glob.dirname_length_lt hwild).ne
  rw [globWithin_succ, hwild, Bool.not_true, if_neg Bool.false_ne_true]
  by_cases hnil : Path.dirname pattern = []
  · have hplain : hasWildcard [] = false := rfl
    rw [if_pos hnil, globNames_nil, mem_flatMap_globNames, hnil]
    simp [hplain]
  · rw [if_neg hnil, mem_flatMap_globNames]
    by_cases hfront : hasWildcard (Path.dirname pattern) = true
    · simp [hother, hfront]
    · simp [hfront]

/-- A pattern is followed from the directory that it is joined onto, if the name of the
directory has no wildcard of its own. -/
theorem mem_globWithin_join_iff
    {origin pattern path : Text} {depth : Nat}
    (horigin : hasWildcard (Path.dirname origin) = false) (hdepth : pattern.length < depth) :
    path ∈ files.globWithin onlyDirectories depth (Path.join (Path.dirname origin) pattern) ↔
      files.Finds (Path.dirname origin) onlyDirectories pattern path := by
  -- The depth bounds the length of the pattern alone: the directory is followed as it stands.
  induction depth generalizing onlyDirectories pattern path with
  | zero => omega
  | succ depth ih =>
      have hsame := hasWildcard_join horigin pattern
      cases hwild : hasWildcard pattern with
      | false =>
          rw [finds_of_plain_iff hwild, mem_globWithin_succ_of_plain (hsame.trans hwild)]
      | true =>
          rw [finds_of_wild_iff hwild, mem_globWithin_succ_iff (hsame.trans hwild),
            Path.basename_join, Path.dirname_join_dirname]
          refine exists_congr fun base => exists_congr fun name => and_congr_right fun _ =>
            and_congr_right fun _ => ?_
          unfold Path.below
          by_cases hnil : Path.dirname pattern = []
          · have hplain : hasWildcard [] = false := rfl
            simp [hnil, horigin, hplain]
          · have hshorter := Glob.dirname_length_lt hwild
            rw [if_neg hnil, hasWildcard_join horigin, ih (by omega)]

theorem mem_glob_join_iff
    {origin pattern path : Text} (horigin : hasWildcard (Path.dirname origin) = false) :
    path ∈ files.glob (Path.join (Path.dirname origin) pattern) ↔
      Path.join (Path.dirname origin) pattern ≠ [] ∧
        files.Finds (Path.dirname origin) false pattern path := by
  have hdepth : pattern.length < (Path.join (Path.dirname origin) pattern).length + 1 := by
    obtain ⟨front, hjoin, -⟩ := Path.exists_join_eq (Path.dirname origin) pattern
    rw [hjoin, List.length_append]
    omega
  rw [glob, List.mem_filter, mem_globWithin_join_iff horigin hdepth, decide_eq_true_iff, and_comm]

/-- Globbing finds what a pattern leads to from the current directory. -/
theorem mem_glob_iff {pattern path : Text} :
    path ∈ files.glob pattern ↔ pattern ≠ [] ∧ files.Finds [] false pattern path := by
  have hjoin : Path.join [] pattern = pattern := by simp [Path.join]
  have hnil : Path.dirname [] = [] := rfl
  have h := @mem_glob_join_iff files [] pattern path rfl
  rwa [hnil, hjoin] at h

end Finds

end FileSystem

end UrlRebase
