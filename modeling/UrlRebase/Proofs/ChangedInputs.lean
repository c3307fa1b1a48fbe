import Mathlib.Logic.Relation
import UrlRebase.Proofs.SettledAssets

/-!
# Inputs that change

Files are saved and deleted between packs, and each file that is saved is newer than all that
are there.  As long as the assets, and what the references of their inputs may lead to, are
left alone, a file that is there afterwards is the one that was there before or is newer than
the assets.  So an asset of which no input is newer has the inputs that it had before, unless
one of them is gone, and is built to the same bytes.
-/

namespace UrlRebase

open Work

/-! ## Files that are saved and deleted -/

namespace FileSystem

/-- What can happen to files: one is saved that is newer than all that are there, or one is
deleted, but none of the spared ones.  No directory that is made for it stands where something
is spared or looked for. -/
inductive Change (spared looked : Set Text) : FileSystem → FileSystem → Prop
  | save (files : FileSystem) (path : Text) (file : File)
      (hnewer : ∀ entry ∈ files.files, entry.2.time < file.time)
      (hspared : ∀ other ∈ spared, files.key other ≠ files.key path)
      (hplain : ∀ other ∈ spared ∪ looked,
        files.key other ∈ ancestors (Path.dirname (files.key path)) →
          files.isDirectory other = true) :
      Change spared looked files (files.place path file)
  | delete (files : FileSystem) (path : Text)
      (hspared : ∀ other ∈ spared, files.key other ≠ files.key path) :
      Change spared looked files (files.remove path)

/-- What is left of some files by changes: a file is as it was, or newer than all that are
spared. -/
structure Changed (spared looked : Set Text) (files files' : FileSystem) : Prop where
  current : files'.current = files.current
  file : ∀ path ∈ spared, files'.file? path = files.file? path
  directory : ∀ path ∈ spared ∪ looked, files'.isDirectory path = files.isDirectory path
  newer : ∀ path file, files'.file? path = some file → files.file? path = some file ∨
    ∀ other ∈ spared, ∀ old, files.file? other = some old → old.time < file.time

variable {spared looked : Set Text} {files files' files'' : FileSystem} {path other : Text}
  {file : File}

theorem mem_of_file? (h : files.file? path = some file) :
    (files.key path, file) ∈ files.files := by
  obtain ⟨front, back, hfiles, -⟩ := List.lookup_eq_some_iff.mp h
  rw [hfiles]
  exact List.mem_append_right front List.mem_cons_self

theorem file?_of_remove (h : (files.remove path).file? other = some file) :
    files.file? other = some file := by
  have hmem := List.mem_filter.mp (mem_of_file? h)
  have hkey : files.key path ≠ files.key other := Ne.symm (of_decide_eq_true hmem.2)
  rwa [file?_remove_of_ne hkey] at h

theorem Changed.change
    (h : files.Changed spared looked files') (hchange : Change spared looked files' files'') :
    files.Changed spared looked files'' := by
  cases hchange with
  | save path file hnewer hspared hplain =>
      refine ⟨h.current, fun other hother => ?_, fun other hother => ?_,
        fun other found hfound => ?_⟩
      · exact (file?_place_of_ne file (hspared other hother)).trans (h.file other hother)
      · rw [isDirectory_place, or_contains_eq_left (hplain other hother), h.directory other hother]
      · by_cases hkey : files'.key other = files'.key path
        · rw [file?_place_self file hkey] at hfound
          obtain rfl := Option.some.inj hfound
          refine .inr fun kept hkept old hold => ?_
          exact hnewer _ (mem_of_file? ((h.file kept hkept).trans hold))
        · rw [file?_place_of_ne file hkey] at hfound
          exact h.newer other found hfound
  | delete path hspared =>
      refine ⟨h.current, fun other hother => ?_, fun other hother => h.directory other hother,
        fun other found hfound => h.newer other found (file?_of_remove hfound)⟩
      exact (file?_remove_of_ne (hspared other hother).symm).trans (h.file other hother)

theorem changed_of_changes
    (h : Relation.ReflTransGen (Change spared looked) files files') :
    files.Changed spared looked files' := by
  induction h with
  | refl => exact ⟨rfl, fun _ _ => rfl, fun _ _ => rfl, fun _ _ h => .inl h⟩
  | tail _ hchange ih => exact ih.change hchange

/-- A file that is not newer than a spared one is the one that was there before. -/
theorem Changed.file?_of_le
    (h : files.Changed spared looked files') (hother : other ∈ spared) {old : File}
    (hold : files.file? other = some old) (hfile : files'.file? path = some file)
    (hle : file.time ≤ old.time) : files.file? path = some file := by
  refine (h.newer path file hfile).resolve_right fun hnewer => ?_
  exact absurd (hnewer other hother old hold) (not_lt.mpr hle)

end FileSystem

/-! ## Inputs -/

theorem Except.mapM_congr
    {ε α β : Type} {f g : α → Except ε β} {list : List α} (h : ∀ a ∈ list, f a = g a) :
    list.mapM f = list.mapM g := by
  induction list with
  | nil => rfl
  | cons a rest ih =>
      rw [List.mapM_cons, List.mapM_cons, h a List.mem_cons_self,
        ih fun b hb => h b (List.mem_cons_of_mem a hb)]

namespace Packer

variable {packer : Packer} {spared looked : Set Text} {files files' : FileSystem}
  {entry : Setting × Setting}

def Finds (packer : Packer) (files : FileSystem) (list : Setting) (path : Text) : Prop :=
  ∃ elements element plan, elementsOf list = .ok elements ∧ element ∈ elements ∧
    packer.planOf element = .ok plan ∧ packer.foundPath files plan.name = .ok (some path)

theorem foundBelow_cons
    {name text : Text} {root : Setting} (htext : root.toText = .ok text) (rest : List Setting) :
    packer.foundBelow files name (root :: rest) =
      if files.exists? (Path.join (packer.fromBase files.current text) name) then
        .ok (some (Path.join (packer.fromBase files.current text) name))
      else packer.foundBelow files name rest := by
  simp only [foundBelow, htext, bind, Except.bind, pure, Except.pure]

theorem foundBelow_eq
    {name : Text} {roots : List Setting} (hcurrent : files'.current = files.current)
    (hkept : ∀ path, packer.foundBelow files name roots = .ok (some path) →
      files'.exists? path = true)
    (hnew : ∀ path, packer.foundBelow files' name roots = .ok (some path) →
      files.exists? path = true) :
    packer.foundBelow files' name roots = packer.foundBelow files name roots := by
  induction roots with
  | nil => rfl
  | cons root rest ih =>
      cases htext : root.toText with
      | error error => simp only [foundBelow, htext, Except.bind, bind]
      | ok text =>
          simp only [foundBelow_cons htext, hcurrent] at *
          -- What is found first is the same, since what is there at a path was there and stays.
          by_cases hthere :
              files.exists? (Path.join (packer.fromBase files.current text) name) = true
          · rw [if_pos hthere, if_pos (hkept _ (if_pos hthere))]
          · have hnot : ¬files'.exists? (Path.join (packer.fromBase files.current text) name) =
                true := fun hthere' => hthere (hnew _ (if_pos hthere'))
            simp only [if_neg hthere, if_neg hnot] at hkept hnew ⊢
            exact ih hkept hnew

theorem foundPath_eq
    {name : Text} (hcurrent : files'.current = files.current)
    (hkept : ∀ path, packer.foundPath files name = .ok (some path) → files'.exists? path = true)
    (hnew : ∀ path, packer.foundPath files' name = .ok (some path) → files.exists? path = true) :
    packer.foundPath files' name = packer.foundPath files name := by
  unfold foundPath at *
  cases hroots : packer.search.elements? with
  | none => rfl
  | some roots =>
      simp only [hroots] at hkept hnew
      exact foundBelow_eq hcurrent hkept hnew

theorem inputOn_eq
    {element : Setting}
    (hfound : ∀ plan, packer.planOf element = .ok plan →
      packer.foundPath files' plan.name = packer.foundPath files plan.name) :
    packer.inputOn files' element = packer.inputOn files element := by
  unfold inputOn
  cases hplan : packer.planOf element with
  | error error => simp only [bind, Except.bind]
  | ok plan => simp only [bind, Except.bind, hfound plan hplan]

/-- The inputs are the same if all that were found are still there and all that are found
were there before. -/
theorem inputsOn_eq
    {list : Setting} (hcurrent : files'.current = files.current)
    (hkept : ∀ path, packer.Finds files list path → files'.exists? path = true)
    (hnew : ∀ path, packer.Finds files' list path → files.exists? path = true) :
    packer.inputsOn files' list = packer.inputsOn files list := by
  unfold inputsOn
  cases helements : elementsOf list with
  | error error => simp only [bind, Except.bind]
  | ok elements =>
      have hinputs :
          elements.mapM (packer.inputOn files') = elements.mapM (packer.inputOn files) :=
        Except.mapM_congr fun element helement => inputOn_eq fun plan hplan =>
          foundPath_eq hcurrent
            (fun path hpath =>
              hkept path ⟨elements, element, plan, helements, helement, hplan, hpath⟩)
            (fun path hpath =>
              hnew path ⟨elements, element, plan, helements, helement, hplan, hpath⟩)
      simp only [bind, Except.bind, hinputs]

/-- What is found under a path that is not empty is an input. -/
theorem exists_input_of_finds
    {list : Setting} {inputs : List Input} {path : Text} (hpath : path ≠ [])
    (h : packer.Finds files list path) (hinputs : packer.inputsOn files list = .ok inputs) :
    ∃ input ∈ inputs, input.path = path := by
  obtain ⟨elements, element, plan, helements, helement, hplan, hfound⟩ := h
  obtain ⟨elements', helements', hinputs⟩ := Except.bind_eq_ok.mp hinputs
  obtain rfl := Except.ok.inj (helements.symm.trans helements')
  obtain ⟨found, hmapped, hinputs⟩ := Except.bind_eq_ok.mp hinputs
  obtain rfl := Except.ok.inj hinputs
  obtain ⟨input?, hmem, hinput⟩ :=
    Forall₂.exists_of_mem_left (Except.mapM_eq_ok_iff.mp hmapped) helement
  have hat : plan.at? (some path) = input? := by
    simp only [inputOn, hplan, hfound, bind, Except.bind, pure, Except.pure, Except.ok.injEq]
      at hinput
    exact hinput
  obtain ⟨c, rest, rfl⟩ := List.exists_cons_of_ne_nil hpath
  refine ⟨{ name := plan.name, path := c :: rest, processors := plan.processors,
            depends := plan.depends }, List.mem_filterMap.mpr ⟨input?, hmem, hat.symm⟩, rfl⟩

end Packer

end UrlRebase
