import UrlRebase.Proofs.SparedPaths

/-!
# Directories that are made on the way

Before an asset is built the directory for it is made.  A directory that is made shows only to
one who asks what is at its path, and building an asset asks for files and reads what is there.
So an asset is built to the same text on files among which directories were made, as long as
none of them is made in place of a file.
-/

namespace UrlRebase

open Work

namespace FileSystem

/-- Whether files are others that are read alike: there are the same files at all paths, and
what is there reads the same. -/
structure ReadsAlike (files files' : FileSystem) : Prop where
  current : files'.current = files.current
  file : ∀ path, files'.file? path = files.file? path
  read : ∀ path, files.exists? path = true → files'.read path = files.read path

/-- Whether a directory and all above it can be made: where one is not there yet, there is no
file. -/
def CanMake (files : FileSystem) (directory : Text) : Prop :=
  ∀ path ∈ ancestors (files.key directory),
    path ∈ files.directories ∨ files.files.lookup path = none

theorem readsAlike_makeDirectories
    {files : FileSystem} {directory : Text} (h : files.CanMake directory) :
    files.ReadsAlike (files.makeDirectories directory) where
  current := rfl
  file _ := rfl
  read path hpath := by
    have hmade : (files.makeDirectories directory).isDirectory path =
        (files.isDirectory path || (ancestors (files.key directory)).contains (files.key path)) :=
      contains_addDirectories _ _ _
    have hsame : (files.makeDirectories directory).isDirectory path = files.isDirectory path := by
      rw [hmade]
      -- What is there and is made was a directory, as no file stands where one is made.
      refine or_contains_eq_left fun hmem => ?_
      rcases h _ hmem with hthere | hnone
      · exact List.contains_iff_mem.mpr hthere
      · rcases exists?_iff.mp hpath with ⟨file, hfile⟩ | hthere
        · rw [hnone] at hfile
          cases hfile
        · exact hthere
    rw [FileSystem.read, FileSystem.read, hsame]
    rfl

namespace ReadsAlike

variable {files files' : FileSystem} (h : files.ReadsAlike files')
include h

theorem isFile_eq : files'.isFile = files.isFile := by
  funext path
  rw [isFile, isFile, h.file]

theorem textOf_eq {path : Text} (hpath : files.exists? path = true) :
    files'.textOf path = files.textOf path := by
  rw [textOf, textOf, h.read path hpath]

theorem contentName_eq {path : Text} (hpath : files.isFile path = true) :
    files'.contentName path = files.contentName path := by
  rw [contentName, contentName, h.read path (by rw [exists?, hpath, Bool.true_or])]

theorem answer_eq (searchPath : SearchPath) (directory : Text) (payload : Payload) :
    searchPath.answer files' directory payload = searchPath.answer files directory payload := by
  unfold SearchPath.answer SearchPath.outcome
  rw [h.current, h.isFile_eq]

end ReadsAlike

end FileSystem

open FileSystem

theorem SearchPath.isFile_of_answer
    {searchPath : SearchPath} {files : FileSystem} {directory path : Text} {payload : Payload}
    {resolution : Resolution} (h : searchPath.answer files directory payload = .ok resolution)
    (hpath : resolution.path? = some path) : files.isFile path = true := by
  unfold SearchPath.answer at h
  split at h
  · obtain rfl := Except.ok.inj h
    cases hpath
  · obtain ⟨candidates, -, rfl⟩ := Except.map_eq_ok.mp h
    exact (List.mem_filter.mp (Resolution.mem_of_path?_ofFiles hpath)).2

theorem Token.rebase_congr
    {named named' : Text → Except Failure Text} {resolution : Resolution}
    (h : ∀ path, resolution.path? = some path → named' path = named path) (token : Token)
    (mode : Mode) (keepQuery : Bool) :
    token.rebase named' mode keepQuery resolution =
      token.rebase named mode keepQuery resolution := by
  unfold Token.rebase
  split
  · rfl
  · rw [h _ rfl]
  · rfl

namespace Rebaser

variable {rebaser : Rebaser} {files files' : FileSystem} {named named' : Text → Except Failure Text}
  (h : files.ReadsAlike files')
  (hnamed : ∀ path, files.isFile path = true → named' path = named path)
include h hnamed

theorem rebasedAs_congr (sheet : StyleSheet) (lineage : Lineage) :
    rebaser.rebasedAs named' files' sheet lineage =
      rebaser.rebasedAs named files sheet lineage := by
  funext token
  unfold rebasedAs leadsTo
  congr 1
  funext origin
  simp only
  split
  · rfl
  · rw [h.current, bind_assoc, bind_assoc]
    congr 1
    funext directory
    rw [h.answer_eq]
    cases hanswer : rebaser.searchPath.answer files directory token.payload with
    | error error => rfl
    | ok resolution =>
        have hpaths (path : Text) (hpath : resolution.path? = some path) :
            named' path = named path :=
          hnamed path (SearchPath.isFile_of_answer hanswer hpath)
        simp only [bind, Except.bind, Token.rebase_congr hpaths]

theorem runAs_congr (sheet : StyleSheet) :
    rebaser.runAs named' files' sheet = rebaser.runAs named files sheet := by
  unfold runAs
  simp only [rebasedAs_congr h hnamed]

end Rebaser

namespace Packer

variable {packer : Packer} {files files' : FileSystem} (h : files.ReadsAlike files')
include h

theorem urlIn_congr {path : Text} (hpath : files.isFile path = true) :
    packer.urlIn files' path = packer.urlIn files path := by
  unfold urlIn
  rw [h.contentName_eq hpath]

section Inputs

variable {input : Input} (hinput : files.exists? input.path = true)
include hinput

theorem draftBy_congr :
    packer.draftBy files' input = packer.draftBy files input := by
  funext draft registration
  have hcompiles : packer.compilesFile files' input draft =
      packer.compilesFile files input draft := by
    rw [compilesFile, compilesFile, h.textOf_eq hinput]
  unfold draftBy compiledOn
  rw [hcompiles, Rebaser.runAs_congr h fun path hpath => urlIn_congr h hpath]

theorem draftOn_congr : packer.draftOn files' input = packer.draftOn files input := by
  rw [draftOn, draftOn, h.textOf_eq hinput, draftBy_congr h hinput]

end Inputs

theorem partsOn_congr
    {inputs : List Input} (hinputs : ∀ input ∈ inputs, files.exists? input.path = true)
    (separator : Setting) (output : Text) :
    packer.partsOn files' separator output inputs =
      packer.partsOn files separator output inputs := by
  induction inputs with
  | nil => rfl
  | cons input rest ih =>
      obtain ⟨hinput, hrest⟩ := List.forall_mem_cons.mp hinputs
      rw [partsOn, partsOn, draftOn_congr h hinput, ih hrest, h.current]

/-- An asset is built to the same on files that are read alike. -/
theorem buildOn_congr
    {inputs : List Input} (hinputs : ∀ input ∈ inputs, files.exists? input.path = true)
    (name output : Text) :
    packer.buildOn files' name inputs output = packer.buildOn files name inputs output := by
  rw [buildOn, buildOn, partsOn_congr h hinputs]

omit h in
/-- Inputs that are found are there. -/
theorem exists?_of_inputsOn
    {list : Setting} {inputs : List Input} (hinputs : packer.inputsOn files list = .ok inputs) :
    ∀ input ∈ inputs, files.exists? input.path = true := by
  intro input hinput
  obtain ⟨_, _, plan, -, -, -, hfound, -⟩ := exists_plan_of_inputsOn hinputs input hinput
  exact (of_foundPath hfound).2

end Packer

end UrlRebase
