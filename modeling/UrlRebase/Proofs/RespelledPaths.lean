import UrlRebase.Proofs.EscapedCharacters
import UrlRebase.Proofs.TransparentCaches

/-!
# Paths that an author spells with escapes

Candidates come from the decoded path of a payload, but whether a payload names a file at all
is judged by the path as it is written.  Escapes can hide a scheme, an authority or a slash
from that judgement and never add one, so two spellings of a path mean the same unless only
one of them hides that it names no file, or no root directory is known for the decoded path.
-/

namespace UrlRebase

/-! ## What escapes hide -/

theorem isSome_behindScheme?_iff {path : Text} :
    (behindScheme? path).isSome = true ↔
      ∃ c run behind, path = c :: run ++ CodePoint.char ':' :: behind ∧
        isSchemeStart c = true ∧ ∀ d ∈ run, isSchemePart d = true := by
  constructor
  · intro hscheme
    cases path with
    | nil => simp [behindScheme?] at hscheme
    | cons c rest =>
        rw [behindScheme?] at hscheme
        by_cases hc : isSchemeStart c = true
        · rw [if_pos hc] at hscheme
          split at hscheme
          · rename_i behind hbehind
            refine ⟨c, rest.takeWhile isSchemePart, behind, ?_, hc, ?_⟩
            · rw [← hbehind, List.cons_append, List.takeWhile_append_dropWhile]
            · exact fun d hd => List.mem_takeWhile_imp hd
          · simp at hscheme
        · simp [if_neg hc] at hscheme
  · rintro ⟨c, run, behind, rfl, hc, hrun⟩
    have hdrop : (run ++ CodePoint.char ':' :: behind).dropWhile isSchemePart =
        CodePoint.char ':' :: behind := by
      rw [List.dropWhile_append_of_pos hrun]
      exact List.dropWhile_cons_of_neg (by decide)
    rw [List.cons_append, behindScheme?, if_pos hc, hdrop]
    rfl

/-- Escapes make no path out of one that names a file into one that names none. -/
theorem namesNoFile_unescape
    {path : Text} {root : Option Text} (hpath : namesNoFile path root = true) :
    namesNoFile (unescape path) root = true := by
  have hnot {c : CodePoint} (hc : isSchemePart c = true) : CodePoint.char '\\' ≠ c := by
    rintro rfl
    revert hc
    decide
  simp only [namesNoFile, Bool.or_eq_true, Bool.and_eq_true, decide_eq_true_eq] at hpath ⊢
  rcases hpath with ((rfl | hscheme) | hauthority) | ⟨habsolute, hroot⟩
  · rw [unescape]
    exact .inl (.inl (.inl rfl))
  · refine .inl (.inl (.inr ?_))
    obtain ⟨c, run, behind, rfl, hc, hrun⟩ := isSome_behindScheme?_iff.mp hscheme
    have hplain : CodePoint.char '\\' ∉ c :: run ++ [CodePoint.char ':'] := by
      intro hmem
      rw [List.mem_append, List.mem_cons, List.mem_singleton] at hmem
      rcases hmem with (hmem | hmem) | hmem
      · exact hnot (by simp [isSchemePart, hc]) hmem
      · exact hnot (hrun _ hmem) rfl
      · revert hmem
        decide
    have hunescape := unescape_append_of_notMem hplain behind
    rw [List.append_assoc, List.append_assoc] at hunescape
    exact isSome_behindScheme?_iff.mpr ⟨c, run, unescape behind, hunescape, hc, hrun⟩
  · refine .inl (.inr ?_)
    obtain ⟨rest, rfl⟩ := List.isPrefixOf_iff_prefix.mp hauthority
    rw [unescape_append_of_notMem (by decide)]
    exact List.isPrefixOf_iff_prefix.mpr (List.prefix_append _ _)
  · refine .inr ⟨?_, hroot⟩
    have hslash : path.head? = some (.char '/') := by simpa [Path.isAbsolute] using habsolute
    obtain ⟨rest, rfl⟩ := List.head?_eq_some_iff.mp hslash
    have hplain : CodePoint.char '\\' ∉ [CodePoint.char '/'] := by decide
    have hunescape := unescape_append_of_notMem hplain rest
    rw [List.singleton_append] at hunescape
    rw [hunescape]
    rfl

namespace SearchPath

/-- Whether only the decoded path of a payload shows that it names no file. -/
def IsHidden (root : Option Text) (path : Text) : Prop :=
  namesNoFile (unescape path) root = true ∧ namesNoFile path root = false

theorem namesNoFile_eq_iff
    {p q : Text} (hspelling : unescape p = unescape q) (root : Option Text) :
    namesNoFile p root = namesNoFile q root ↔ (IsHidden root p ↔ IsHidden root q) := by
  unfold IsHidden
  rw [← hspelling]
  cases hp : namesNoFile p root with
  | true =>
      have hplain := namesNoFile_unescape hp
      cases hq : namesNoFile q root <;> simp [hplain]
  | false =>
      cases hq : namesNoFile q root with
      | true =>
          have hplain := namesNoFile_unescape hq
          rw [← hspelling] at hplain
          simp [hplain]
      | false => simp

theorem outcome_of_respelling
    {p q : Text} (hspelling : unescape p = unescape q) (searchPath : SearchPath)
    (files : FileSystem) (directory : Text) :
    searchPath.outcome files directory p = searchPath.outcome files directory q := by
  unfold outcome candidates
  rw [hspelling]

/-- A lookup has an outcome unless no root directory is known, and never that the path names
no file. -/
theorem exists_outcome_iff
    (searchPath : SearchPath) (files : FileSystem) (directory path : Text) :
    (∃ resolution, searchPath.outcome files directory path = .ok resolution) ↔
      ¬LacksRoot searchPath.root path := by
  by_cases hroot : LacksRoot searchPath.root path
  · rw [outcome, candidates_of_lacksRoot hroot]
    simp [hroot, Except.map]
  · obtain ⟨candidates, hcandidates, -⟩ :=
      candidates_of_not_lacksRoot hroot files.current directory
    rw [outcome, hcandidates]
    simp [hroot, Except.map]

theorem outcome_ne_ignored
    (searchPath : SearchPath) (files : FileSystem) (directory path : Text) :
    searchPath.outcome files directory path ≠ .ok .ignored := by
  unfold outcome
  cases searchPath.candidates files.current directory path with
  | error error => simp [Except.map]
  | ok candidates =>
      simp only [Except.map, ne_eq, Except.ok.injEq]
      unfold Resolution.ofFiles
      split <;> simp

end SearchPath

/-! ## Answers to two spellings -/

namespace Query

open SearchPath Work

variable {p q : Text}

theorem map_resolution_eq_ok_iff {result : Except Failure Resolution} {resolution : Resolution} :
    result.map Answer.resolution = .ok (.resolution resolution) ↔ result = .ok resolution := by
  cases result <;> simp [Except.map]

theorem sameAnswer_iff
    (hspelling : unescape p = unescape q) (files : FileSystem) (searchPath : SearchPath)
    (directory : Text) :
    (∃ resolution,
        answer files (.reference searchPath directory ⟨p, [], []⟩) =
            .ok (.resolution resolution) ∧
          answer files (.reference searchPath directory ⟨q, [], []⟩) =
            .ok (.resolution resolution)) ↔
      (IsHidden searchPath.root p ↔ IsHidden searchPath.root q) ∧
        (namesNoFile p searchPath.root = true ∨ ¬LacksRoot searchPath.root p) := by
  rw [← namesNoFile_eq_iff hspelling, ← exists_outcome_iff searchPath files directory]
  have hignored := outcome_ne_ignored searchPath files directory q
  simp only [answer, outcome_of_respelling hspelling searchPath files directory]
  cases namesNoFile p searchPath.root with
  | true =>
      rw [if_pos rfl]
      cases namesNoFile q searchPath.root with
      | true => exact ⟨fun _ => ⟨rfl, .inl rfl⟩, fun _ => ⟨.ignored, rfl, rfl⟩⟩
      | false =>
          refine ⟨?_, fun h => absurd h.1 (by decide)⟩
          rintro ⟨resolution, hfirst, hsecond⟩
          obtain rfl := Answer.resolution.inj (Except.ok.inj hfirst)
          exact absurd (map_resolution_eq_ok_iff.mp hsecond) hignored
  | false =>
      rw [if_neg (by decide)]
      cases namesNoFile q searchPath.root with
      | true =>
          refine ⟨?_, fun h => absurd h.1 (by decide)⟩
          rintro ⟨resolution, hfirst, hsecond⟩
          obtain rfl := Answer.resolution.inj (Except.ok.inj hsecond)
          exact absurd (map_resolution_eq_ok_iff.mp hfirst) hignored
      | false =>
          rw [if_neg (by decide)]
          simp [map_resolution_eq_ok_iff]

/-- Whatever was asked before, two spellings of the path of a payload lead to the same file,
the same candidates or nowhere alike, unless only one of them hides that the path names no
file, or both are looked up although no root directory is known for the decoded path. -/
theorem answers_of_respelling
    (hspelling : unescape p = unescape q) (files : FileSystem) (queries : List Query)
    (searchPath : SearchPath) (directory : Text) :
    ∃ answers first second after,
      Runs (performAll (queries ++ [.reference searchPath directory ⟨p, [], []⟩,
        .reference searchPath directory ⟨q, [], []⟩])) { files }
        (.ok (answers ++ [first, second])) after ∧
      answers.length = queries.length ∧
      ((∃ resolution, first = .ok (.resolution resolution) ∧
          second = .ok (.resolution resolution)) ↔
        (IsHidden searchPath.root p ↔ IsHidden searchPath.root q) ∧
          (namesNoFile p searchPath.root = true ∨ ¬LacksRoot searchPath.root p)) := by
  obtain ⟨after, hruns, -⟩ := runs_performAll (served_of_files files)
    (queries ++ [.reference searchPath directory ⟨p, [], []⟩,
      .reference searchPath directory ⟨q, [], []⟩])
  rw [List.map_append] at hruns
  exact ⟨_, _, _, after, hruns, List.length_map _, sameAnswer_iff hspelling files _ _⟩

theorem answers_of_escaped_letter :
    ∃ (files : FileSystem) (answers : List (Except Failure Answer)) (resolution : Resolution)
        (after : Workspace),
      unescape "\\61.png".text = unescape "a.png".text ∧
      Runs (performAll [.content "/a.png".text,
        .reference ⟨[], none, false⟩ "/d".text ⟨"\\61.png".text, [], []⟩,
        .reference ⟨[], none, false⟩ "/d".text ⟨"a.png".text, [], []⟩]) { files }
        (.ok (answers ++ [.ok (.resolution resolution), .ok (.resolution resolution)])) after := by
  have hspelling : unescape "\\61.png".text = unescape "a.png".text := by cbv
  obtain ⟨answers, first, second, after, hruns, -, hsame⟩ := answers_of_respelling hspelling
    (.empty "/".text) [.content "/a.png".text] ⟨[], none, false⟩ "/d".text
  have hshown (path : Text) (hplain : namesNoFile (unescape path) none = false) :
      ¬IsHidden none path := by
    rintro ⟨hhidden, -⟩
    rw [hplain] at hhidden
    simp at hhidden
  have hfirst := hshown "\\61.png".text (by cbv)
  have hsecond := hshown "a.png".text (by cbv)
  have hroot : ¬LacksRoot none "\\61.png".text := by
    have hrelative : Path.isAbsolute (Percent.decode (unescape "\\61.png".text)) = false := by cbv
    rintro ⟨habsolute, -⟩
    rw [hrelative] at habsolute
    simp at habsolute
  obtain ⟨resolution, rfl, rfl⟩ :=
    hsame.mpr ⟨⟨fun h => absurd h hfirst, fun h => absurd h hsecond⟩, .inr hroot⟩
  exact ⟨_, answers, resolution, after, hspelling, hruns⟩

/-- A letter of a scheme that is written as an escape hides the scheme. -/
theorem answers_of_escaped_scheme :
    unescape "http:a.png".text = unescape "\\68ttp:a.png".text ∧
    ∃ after candidates, candidates ≠ [] ∧
      Runs (performAll [.reference ⟨[], none, false⟩ "/d".text ⟨"http:a.png".text, [], []⟩,
        .reference ⟨[], none, false⟩ "/d".text ⟨"\\68ttp:a.png".text, [], []⟩])
        { files := .empty "/".text }
        (.ok [.ok (.resolution .ignored), .ok (.resolution (.notFound candidates))]) after := by
  refine ⟨by cbv, ?_⟩
  obtain ⟨after, hruns, -⟩ := runs_performAll (served_of_files (.empty "/".text))
    [.reference ⟨[], none, false⟩ "/d".text ⟨"http:a.png".text, [], []⟩,
      .reference ⟨[], none, false⟩ "/d".text ⟨"\\68ttp:a.png".text, [], []⟩]
  refine ⟨after, ["/d/http:a.png".text], List.cons_ne_nil _ _, ?_⟩
  have hfirst : answer (.empty "/".text)
      (.reference ⟨[], none, false⟩ "/d".text ⟨"http:a.png".text, [], []⟩) =
        .ok (.resolution .ignored) := by
    cbv
  have hsecond : answer (.empty "/".text)
      (.reference ⟨[], none, false⟩ "/d".text ⟨"\\68ttp:a.png".text, [], []⟩) =
        .ok (.resolution (.notFound ["/d/http:a.png".text])) := by
    cbv
  rwa [List.map_cons, List.map_cons, List.map_nil, hfirst, hsecond] at hruns

end Query

end UrlRebase
