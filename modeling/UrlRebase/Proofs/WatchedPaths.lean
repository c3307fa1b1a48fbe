import UrlRebase.Pack.Input
import UrlRebase.Proofs.ListedFiles

/-!
# Paths whose times are watched

An input is newer than a time exactly if its own file is, or something that one of its patterns
finds.  The patterns are joined onto the directory of the input, and what is found depends on
the whole text: in a directory whose name has no wildcard the patterns are followed from that
directory, but brackets and stars in the name of a directory become part of every pattern.
-/

namespace UrlRebase

open FileSystem Glob

namespace FileSystem

variable {files : FileSystem} {path : Text} {time : Int}

/-- Whether the time of a path can be told and is after another one. -/
def IsNewerThan (files : FileSystem) (time : Int) (path : Text) : Prop :=
  ∃ changed, files.timeOf path = .ok changed ∧ time < changed

theorem exists_timeOf_iff : (∃ changed, files.timeOf path = .ok changed) ↔ files.exists? path = true := by
  rw [timeOf, exists?, isFile, Bool.or_eq_true, Option.isSome_iff_exists]
  split
  · rename_i hdirectory
    simp [hdirectory]
  · rename_i hdirectory
    cases files.file? path <;> simp [hdirectory]

theorem timeOf_of_missing (hpath : files.exists? path = false) :
    files.timeOf path = .error (.notFound path) := by
  rw [exists?, isFile, Bool.or_eq_false_iff, Option.isSome_eq_false_iff, Option.isNone_iff_eq_none] at hpath
  simp [timeOf, hpath]

end FileSystem

namespace Input

variable {files : FileSystem} {input : Input} {patterns : List Text}

/-- The search stops at the first path that is newer, and passes over none that is there. -/
theorem exists_anyNewer_eq {paths : List Text} (hpaths : ∀ path ∈ paths, files.exists? path = true)
    (time : Int) :
    ∃ newer, anyNewer files time (paths.map .ok) = .ok newer ∧
      (newer = true ↔ ∃ path ∈ paths, files.IsNewerThan time path) := by
  induction paths with
  | nil => exact ⟨false, rfl, by simp⟩
  | cons path paths ih =>
      obtain ⟨hpath, hpaths⟩ := List.forall_mem_cons.mp hpaths
      obtain ⟨changed, hchanged⟩ := exists_timeOf_iff.mpr hpath
      have hnewer : files.IsNewerThan time path ↔ time < changed := by
        simp [IsNewerThan, hchanged]
      obtain ⟨newer, hrest, hiff⟩ := ih hpaths
      by_cases htime : time < changed
      · refine ⟨true, ?_, ?_⟩
        · simp [anyNewer, hchanged, htime]
        · simpa using .inl (hnewer.mpr htime)
      · refine ⟨newer, ?_, ?_⟩
        · simpa [anyNewer, hchanged, htime] using hrest
        · rw [hiff]
          simp [hnewer, htime]

theorem watchedPaths_eq (hdepends : input.depends.elements? = some (patterns.map .text)) :
    input.watchedPaths files =
      (input.path :: patterns.flatMap fun pattern =>
        files.glob (Path.join (Path.dirname input.path) pattern)).map .ok := by
  rw [watchedPaths, hdepends, List.map_cons, List.map_flatMap]
  exact congrArg _ (List.flatMap_map _ _ patterns)

/-- An input whose file is gone is no input any more. -/
theorem isNewer_of_missing (hpath : files.exists? input.path = false) (time : Int) :
    input.isNewer files time = .error (.file (.notFound input.path)) := by
  rw [isNewer, watchedPaths, anyNewer, timeOf_of_missing hpath]

/-- An input is newer than a time exactly if its file is, or a path that globbing finds for one
of its patterns joined onto its directory. -/
theorem exists_isNewer_iff_glob
    (hfiles : files.IsKeyed) (hpath : files.exists? input.path = true)
    (hdepends : input.depends.elements? = some (patterns.map .text)) (time : Int) :
    ∃ newer, input.isNewer files time = .ok newer ∧
      (newer = true ↔ files.IsNewerThan time input.path ∨ ∃ pattern ∈ patterns,
        ∃ path ∈ files.glob (Path.join (Path.dirname input.path) pattern),
          files.IsNewerThan time path) := by
  have hthere : ∀ path ∈ input.path :: patterns.flatMap fun pattern =>
      files.glob (Path.join (Path.dirname input.path) pattern), files.exists? path = true := by
    rw [List.forall_mem_cons]
    refine ⟨hpath, fun path hfound => ?_⟩
    obtain ⟨pattern, -, hglob⟩ := List.mem_flatMap.mp hfound
    exact hfiles.exists?_of_finds (mem_glob_iff.mp hglob).2
  obtain ⟨newer, hnewer, hiff⟩ := exists_anyNewer_eq hthere time
  rw [← watchedPaths_eq hdepends] at hnewer
  refine ⟨newer, hnewer, hiff.trans ?_⟩
  simp only [List.mem_cons, exists_eq_or_imp, List.mem_flatMap]
  grind

def sheetsIn (directory : Text) : FileSystem :=
  ((FileSystem.empty "/p".text).place (Path.join directory "a.css".text) ⟨.empty, 1, true⟩).place
    (Path.join directory "b.scss".text) ⟨.empty, 5, true⟩

/-- The style sheet in a directory, which depends on the parts beside it. -/
def sheetIn (directory : Text) : Input where
  name := "a.css".text
  path := Path.join directory "a.css".text
  processors := []
  depends := .list none [.text "*.scss".text]

theorem isKeyed_sheetsIn (directory : Text) : (sheetsIn directory).IsKeyed :=
  ((isKeyed_empty rfl).place _ _).place _ _

theorem depends_sheetIn (directory : Text) :
    (sheetIn directory).depends.elements? = some (["*.scss".text].map .text) :=
  rfl

theorem finds_part {directory : Text}
    (hlisted : "b.scss".text ∈ (sheetsIn directory).list directory) :
    (sheetsIn directory).Finds directory false "*.scss".text (Path.join directory "b.scss".text) :=
  (finds_iff_of_notMem rfl (by decide)).mpr
    ⟨"b.scss".text, hlisted, matchesName_iff.mp (by decide +kernel), rfl, by simp⟩

end Input

end UrlRebase
