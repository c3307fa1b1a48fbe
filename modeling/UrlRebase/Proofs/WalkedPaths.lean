import UrlRebase.Path.Basic
import UrlRebase.Proofs.RestoredMappings

/-!
# Walks along paths

A place is given by the names on the way to it from the root.  A path is a walk that starts
at a place: a name leads on, an upward segment takes a name back, and an idle one stays.  The
shortest spelling of an absolute path is its slashes in front and the names of the place
where it leads from the root.
-/

namespace UrlRebase

theorem Text.fields_append_cons (separator : CodePoint) (front behind : Text) :
    fields separator (front ++ separator :: behind) =
      fields separator front ++ fields separator behind := by
  induction front with
  | nil => simp [fields]
  | cons c front ih =>
      rw [List.cons_append, fields, fields, ih]
      by_cases hc : c = separator
      · rw [if_pos hc, if_pos hc, List.cons_append]
      · rw [if_neg hc, if_neg hc]
        obtain ⟨field, others, hfields⟩ :=
          List.exists_cons_of_ne_nil (fields_ne_nil separator front)
        simp [hfields]

theorem Text.joined_concat
    {separator : Text} {front : List Text} (hfront : front ≠ []) (last : Text) :
    joined separator (front ++ [last]) = joined separator front ++ (separator ++ last) := by
  unfold joined
  induction front with
  | nil => exact absurd rfl hfront
  | cons part front ih =>
      by_cases hnil : front = []
      · subst hnil
        simp
      · rw [List.cons_append, List.intercalate_cons_of_ne_nil (by simp), ih hnil,
          List.intercalate_cons_of_ne_nil hnil]
        simp

theorem Text.notMem_fields (separator : CodePoint) (text : Text) :
    ∀ field ∈ fields separator text, separator ∉ field := by
  induction text with
  | nil => simp [fields]
  | cons c rest ih =>
      obtain ⟨field, others, hfields⟩ :=
        List.exists_cons_of_ne_nil (fields_ne_nil separator rest)
      rw [hfields] at ih
      rw [fields, hfields]
      by_cases hc : c = separator
      · rw [if_pos hc]
        simpa using ih
      · rw [if_neg hc]
        simpa [Ne.symm hc] using ih

namespace Path

/-! ## Walks over the names of places -/

/-- What a segment has to be to name something: it leads neither nowhere nor up. -/
structure IsName (segment : Text) : Prop where
  moves : isIdle segment = false
  down : segment ≠ "..".text
  whole : .char '/' ∉ segment

theorem IsName.ne_nil {segment : Text} (h : IsName segment) : segment ≠ [] := by
  rintro rfl
  exact absurd h.moves (by decide)

/-- Where a path leads from a place.  Places are given by their names, the last one first. -/
def walk (place : List Text) (path : Text) : List Text :=
  (Text.fields '/' path).foldl (step true) place

theorem walk_nil (place : List Text) : walk place [] = place := by
  simp [walk, Text.fields, step, isIdle]

theorem walk_append_slash (place : List Text) (front behind : Text) :
    walk place (front ++ CodePoint.char '/' :: behind) = walk (walk place front) behind := by
  rw [walk, Text.fields_append_cons, List.foldl_append]
  rfl

theorem walk_slash (place : List Text) (path : Text) :
    walk place (CodePoint.char '/' :: path) = walk place path := by
  have h := walk_append_slash place [] path
  rwa [List.nil_append, walk_nil] at h

theorem isName_step
    {place : List Text} {segment : Text} (hplace : ∀ name ∈ place, IsName name)
    (hsegment : .char '/' ∉ segment) : ∀ name ∈ step true place segment, IsName name := by
  unfold step
  split
  · exact hplace
  · rename_i hmoves
    split
    · rename_i hdown
      intro name hname
      rcases List.mem_cons.mp hname with rfl | hname
      · exact ⟨by simpa using hmoves, hdown, hsegment⟩
      · exact hplace name hname
    · split
      · simp
      · rename_i top below
        rw [if_neg (hplace top List.mem_cons_self).down]
        exact fun name hname => hplace name (List.mem_cons_of_mem top hname)

theorem isName_walk {place : List Text} (hplace : ∀ name ∈ place, IsName name) (path : Text) :
    ∀ name ∈ walk place path, IsName name := by
  have hfields := Text.notMem_fields '/' path
  unfold walk
  generalize Text.fields '/' path = fields at hfields
  induction fields generalizing place with
  | nil => exact hplace
  | cons field fields ih =>
      exact ih (isName_step hplace (hfields field List.mem_cons_self))
        fun other hother => hfields other (List.mem_cons_of_mem field hother)

theorem walk_joined
    {parts : List Text} (hparts : ∀ part ∈ parts, .char '/' ∉ part) (place : List Text) :
    walk place (Text.joined ['/'] parts) = parts.foldl (step true) place := by
  by_cases hnil : parts = []
  · subst hnil
    exact walk_nil place
  · rw [walk, Text.fields_joined hparts hnil]

theorem foldl_step_names {names : List Text} (hnames : ∀ name ∈ names, IsName name) (place : List Text) :
    names.foldl (step true) place = names.reverse ++ place := by
  induction names generalizing place with
  | nil => rfl
  | cons name names ih =>
      have hname := hnames name List.mem_cons_self
      have hstep : step true place name = name :: place := by
        simp [step, hname.moves, hname.down]
      rw [List.foldl_cons, hstep, ih fun other hother => hnames other (List.mem_cons_of_mem name hother),
        List.reverse_cons, List.append_assoc, List.singleton_append]

theorem foldl_step_ups
    {names : List Text} (hnames : ∀ name ∈ names, IsName name) (place : List Text) :
    (names.map fun _ => "..".text).foldl (step true) (names ++ place) = place := by
  induction names with
  | nil => rfl
  | cons name names ih =>
      have hup : step true (name :: (names ++ place)) "..".text = names ++ place := by
        have hidle : isIdle "..".text = false := by decide
        simp [step, hidle, (hnames name List.mem_cons_self).down]
      rw [List.map_cons, List.foldl_cons, List.cons_append, hup]
      exact ih fun other hother => hnames other (List.mem_cons_of_mem name hother)

/-! ## Places from the root -/

theorem upToSlash_append {last : Text} (hlast : .char '/' ∉ last) (front : Text) :
    upToSlash (front ++ .char '/' :: last) = front ++ [.char '/'] := by
  have hall : ∀ c ∈ last.reverse, decide (c ≠ CodePoint.char '/') = true := by
    intro c hc
    rw [decide_eq_true_iff]
    rintro rfl
    exact hlast (List.mem_reverse.mp hc)
  rw [upToSlash, List.reverse_append, List.reverse_cons, List.append_assoc,
    List.dropWhile_append_of_pos hall]
  simp

/-- What the shortest spelling of an absolute path starts with. -/
def IsRoot (mark : Text) : Prop :=
  mark = ['/'] ∨ mark = ['/', '/']

theorem isAbsolute_joined
    {parts : List Text} (hparts : ∀ part ∈ parts, .char '/' ∉ part) (hne : ∀ part ∈ parts, part ≠ []) :
    isAbsolute (Text.joined ['/'] parts) = false := by
  cases parts with
  | nil => rfl
  | cons part parts =>
      have hwhole := hparts part List.mem_cons_self
      obtain ⟨c, rest, rfl⟩ := List.exists_cons_of_ne_nil (hne part List.mem_cons_self)
      have hc : c ≠ .char '/' := by
        rintro rfl
        exact hwhole List.mem_cons_self
      cases parts <;> simp [isAbsolute, Text.joined, List.intercalate, hc]

theorem isAbsolute_joined_names {names : List Text} (hnames : ∀ name ∈ names, IsName name) :
    isAbsolute (Text.joined ['/'] names) = false :=
  isAbsolute_joined (fun name hname => (hnames name hname).whole)
    fun name hname => (hnames name hname).ne_nil

theorem exists_joined
    {names : List Text} (hne : names ≠ []) (hnames : ∀ name ∈ names, IsName name) :
    ∃ init c, c ≠ .char '/' ∧ Text.joined ['/'] names = init ++ [c] := by
  obtain ⟨front, last, rfl⟩ := (List.eq_nil_or_concat' names).resolve_left hne
  have hlast := hnames last (List.mem_append_right front (List.mem_singleton_self last))
  obtain ⟨init, c, rfl⟩ := (List.eq_nil_or_concat' last).resolve_left hlast.ne_nil
  have hc : c ≠ .char '/' := by
    rintro rfl
    exact hlast.whole (by simp)
  by_cases hfront : front = []
  · subst hfront
    exact ⟨init, c, hc, by simp [Text.joined]⟩
  · exact ⟨_, c, hc, by rw [Text.joined_concat hfront, ← List.append_assoc, ← List.append_assoc]⟩

/-- The shortest spelling of an absolute path to a place. -/
def rooted (mark : Text) (names : List Text) : Text :=
  mark ++ Text.joined ['/'] names

section Rooted

variable {mark : Text} {names : List Text}

theorem isRoot_rootMark {path : Text} (h : isAbsolute path = true) : IsRoot (rootMark path) := by
  obtain ⟨rest, rfl⟩ : ∃ rest, path = .char '/' :: rest := by
    cases path with
    | nil => simp [isAbsolute] at h
    | cons c rest =>
        simp [isAbsolute] at h
        exact ⟨rest, by rw [h]⟩
  unfold rootMark IsRoot
  split
  · exact .inl rfl
  · exact .inr rfl
  · exact .inl rfl
  · rename_i hnot
    exact absurd rfl (hnot rest)

theorem rootMark_append {rest : Text} (hmark : IsRoot mark) (hrest : isAbsolute rest = false) :
    rootMark (mark ++ rest) = mark := by
  cases rest with
  | nil => rcases hmark with rfl | rfl <;> rfl
  | cons c rest =>
      have hc : c ≠ .char '/' := by
        rintro rfl
        simp [isAbsolute] at hrest
      rcases hmark with rfl | rfl
      · unfold rootMark
        split <;> simp_all
      · unfold rootMark
        split
        · simp_all
        · rfl
        · rename_i hnot heq
          exact absurd (List.cons.inj heq).2.symm (hnot _)
        · simp_all

theorem walk_root_append (hmark : IsRoot mark) (place : List Text) (rest : Text) :
    walk place (mark ++ rest) = walk place rest := by
  rcases hmark with rfl | rfl
  · exact walk_slash place rest
  · exact (walk_slash place _).trans (walk_slash place rest)

theorem isAbsolute_rooted (hmark : IsRoot mark) : isAbsolute (rooted mark names) = true := by
  rcases hmark with rfl | rfl <;> simp [rooted, isAbsolute]

variable (hmark : IsRoot mark) (hnames : ∀ name ∈ names, IsName name)
include hmark hnames

theorem rootMark_rooted : rootMark (rooted mark names) = mark :=
  rootMark_append hmark (isAbsolute_joined_names hnames)

theorem walk_rooted (place : List Text) : walk place (rooted mark names) = names.reverse ++ place := by
  rw [rooted, walk_root_append hmark, walk_joined fun name hname => (hnames name hname).whole,
    foldl_step_names hnames]

theorem names_rooted : Path.names (rooted mark names) = names := by
  have hfields : (Text.fields '/' (Text.joined ['/'] names)).filter (· ≠ []) = names := by
    cases names with
    | nil => rfl
    | cons name rest =>
        rw [Text.fields_joined (fun name hname => (hnames name hname).whole) (by simp)]
        exact List.filter_eq_self.mpr fun name hname => by simpa using (hnames name hname).ne_nil
  rcases hmark with rfl | rfl <;>
    simpa [Path.names, rooted, Text.fields] using hfields

/-- Going on from a place by a relative path keeps the slashes in front. -/
theorem rootMark_join {path : Text} (hpath : isAbsolute path = false) :
    rootMark (join (rooted mark names) path) = mark := by
  have hjoined := isAbsolute_joined_names hnames
  unfold join
  rw [if_neg (by simp [hpath])]
  split
  · rw [rooted, List.append_assoc]
    refine rootMark_append hmark ?_
    cases hnames : Text.joined ['/'] names with
    | nil => exact hpath
    | cons c rest => rwa [hnames] at hjoined
  · rename_i hlast
    rw [rooted, List.append_assoc, List.append_assoc]
    refine rootMark_append hmark ?_
    cases hnames : Text.joined ['/'] names with
    | nil =>
        refine absurd (.inr ?_) hlast
        rw [rooted, hnames]
        rcases hmark with rfl | rfl <;> rfl
    | cons c rest => rwa [hnames] at hjoined

theorem dirname_rooted : dirname (rooted mark names) = rooted mark names.dropLast := by
  rcases List.eq_nil_or_concat' names with rfl | ⟨front, last, rfl⟩
  · rcases hmark with rfl | rfl <;> decide
  · have hlast := hnames last (List.mem_append_right front (List.mem_singleton_self last))
    rw [List.dropLast_concat]
    by_cases hfront : front = []
    · subst hfront
      have hup : upToSlash (mark ++ last) = mark := by
        rcases hmark with rfl | rfl
        · exact upToSlash_append hlast.whole []
        · exact upToSlash_append hlast.whole ['/']
      have hslashes : mark.all (· = .char '/') = true := by rcases hmark with rfl | rfl <;> decide
      simp [rooted, Text.joined, dirname, hup, hslashes]
    · obtain ⟨init, c, hc, hjoined⟩ := exists_joined hfront fun name hname =>
        hnames name (List.mem_append_left _ hname)
      have hsplit : rooted mark (front ++ [last]) = rooted mark front ++ .char '/' :: last := by
        rw [rooted, Text.joined_concat hfront, rooted, List.append_assoc]
        rfl
      have hmore : (rooted mark front ++ [CodePoint.char '/']).all (· = CodePoint.char '/') =
          false := by
        simp [rooted, hjoined, hc]
      have htrim : Text.trimRight (· = CodePoint.char '/')
          (rooted mark front ++ [CodePoint.char '/']) = rooted mark front := by
        simp [Text.trimRight, rooted, hjoined, hc]
      rw [dirname, hsplit, upToSlash_append hlast.whole]
      simp only [hmore, Bool.false_eq_true, if_false, htrim]

end Rooted

section Absolute

variable {current path : Text}

theorem segments_of_absolute (h : isAbsolute path = true) :
    segments path = (walk [] path).reverse := by
  rw [segments, h]
  rfl

theorem normalize_of_absolute (h : isAbsolute path = true) :
    normalize path = rooted (rootMark path) (segments path) := by
  have hne : rootMark path ++ Text.joined ['/'] (segments path) ≠ [] := by
    rcases isRoot_rootMark h with hmark | hmark <;> rw [hmark] <;> simp
  rw [normalize, if_neg hne, rooted]

theorem isName_segments (h : isAbsolute path = true) :
    ∀ name ∈ segments path, IsName name := by
  rw [segments_of_absolute h]
  intro name hname
  exact isName_walk (by simp) path name (List.mem_reverse.mp hname)

theorem walk_join (hpath : isAbsolute path = false) (place : List Text) :
    walk place (join current path) = walk (walk place current) path := by
  unfold join
  rw [if_neg (by simp [hpath])]
  split
  · rename_i hlast
    rcases hlast with rfl | hlast
    · rw [walk_nil, List.nil_append]
    · obtain ⟨front, rfl⟩ := List.getLast?_eq_some_iff.mp hlast
      rw [walk_append_slash, walk_nil, List.append_assoc]
      exact walk_append_slash place front path
  · rw [List.append_assoc]
    exact walk_append_slash place current path

theorem isAbsolute_join (hcurrent : isAbsolute current = true) (path : Text) :
    isAbsolute (join current path) = true := by
  have happend (rest : Text) : isAbsolute (current ++ rest) = true := by
    cases current with
    | nil => simp [isAbsolute] at hcurrent
    | cons c current => simpa [isAbsolute] using hcurrent
  unfold join
  split
  · assumption
  · split
    · exact happend path
    · rw [List.append_assoc]
      exact happend _

end Absolute

end Path

end UrlRebase
