import UrlRebase.Pack.Input
import UrlRebase.Proofs.ListedFiles
import UrlRebase.Proofs.StoppedPacks

/-!
# Files that packing ages

While assets are packed the clock does not go back, nothing that is there goes away, and a file
is as it was or was written at a time after the clock of before.  Whatever a pattern found it
still finds, so the paths that are watched for an input can only become more.
-/

namespace UrlRebase

open Work Workspace

namespace FileSystem

open Glob

/-! ## File systems with more in them -/

/-- Whether all paths that are kept are still kept, with the same current directory. -/
structure Widens (before after : FileSystem) : Prop where
  current : after.current = before.current
  files : before.files.map Prod.fst ⊆ after.files.map Prod.fst
  directories : before.directories ⊆ after.directories

theorem Widens.refl (files : FileSystem) : Widens files files :=
  ⟨rfl, List.Subset.refl _, List.Subset.refl _⟩

theorem Widens.trans {a b c : FileSystem} (h : Widens a b) (h' : Widens b c) : Widens a c :=
  ⟨h'.current.trans h.current, List.Subset.trans h.files h'.files,
    List.Subset.trans h.directories h'.directories⟩

theorem subset_addDirectories (directories added : List Text) :
    directories ⊆ addDirectories directories added :=
  List.subset_append_left _ _

theorem widens_makeDirectories (files : FileSystem) (path : Text) :
    Widens files (files.makeDirectories path) :=
  ⟨rfl, List.Subset.refl _, subset_addDirectories _ _⟩

theorem widens_of_write {files after : FileSystem} {path : Text} {bytes : ByteArray}
    (h : files.write path bytes = .ok after) : Widens files after := by
  unfold write at h
  split at h
  · cases h
  · obtain rfl := Except.ok.inj h
    exact ⟨rfl, fun _ hkey => mem_keys_put_iff.mpr (.inr hkey), subset_addDirectories _ _⟩

section Widens

variable {files files' : FileSystem} (h : files.Widens files')
include h

theorem Widens.isDirectory {path : Text} (hpath : files.isDirectory path = true) :
    files'.isDirectory path = true := by
  rw [FileSystem.isDirectory, List.contains_iff_mem] at *
  rw [key_congr h.current]
  exact h.directories hpath

theorem Widens.isFile {path : Text} (hpath : files.isFile path = true) :
    files'.isFile path = true := by
  rw [FileSystem.isFile, file?, isSome_lookup_iff] at *
  rw [key_congr h.current]
  exact h.files hpath

theorem Widens.exists? {path : Text} (hpath : files.exists? path = true) :
    files'.exists? path = true := by
  rw [FileSystem.exists?, Bool.or_eq_true] at *
  exact hpath.imp h.isFile h.isDirectory

theorem Widens.list (directory : Text) : files.list directory ⊆ files'.list directory := by
  intro name hname
  obtain ⟨hthere, path, hkept, hin⟩ := mem_list_iff.mp hname
  rw [← key_congr h.current] at hin
  refine mem_list_iff.mpr ⟨h.isDirectory hthere, path, ?_, hin⟩
  exact (List.mem_append.mp hkept).elim (fun hfile => List.mem_append_left _ (h.files hfile))
    fun hdirectory => List.mem_append_right _ (h.directories hdirectory)

theorem Widens.names {onlyDirectories : Bool} {directory segment name : Text}
    (hname : files.Names onlyDirectories directory segment name) :
    files'.Names onlyDirectories directory segment name := by
  cases hname with
  | here hthere => exact .here (h.isDirectory hthere)
  | itself hplain hne hthere => exact .itself hplain hne (h.exists? hthere)
  | matched hwild hlisted hmatches honly =>
      exact .matched hwild (h.list directory hlisted) hmatches fun hdirectory =>
        h.isDirectory (honly hdirectory)

theorem Widens.finds {onlyDirectories : Bool} {directory pattern path : Text}
    (hfinds : files.Finds directory onlyDirectories pattern path) :
    files'.Finds directory onlyDirectories pattern path := by
  induction hfinds with
  | plain hplain hthere =>
      refine .plain hplain ?_
      unfold isThere at *
      split at hthere
      · rename_i hname
        rw [if_pos hname]
        exact h.isDirectory hthere
      · rename_i hname
        rw [if_neg hname]
        exact h.exists? hthere
  | under hwild hfront hname => exact .under hwild hfront (h.names hname)
  | through hwild hfront _ hname ih => exact .through hwild hfront ih (h.names hname)

theorem Widens.glob (pattern : Text) : files.glob pattern ⊆ files'.glob pattern := by
  intro path hpath
  obtain ⟨hne, hfinds⟩ := mem_glob_iff.mp hpath
  exact mem_glob_iff.mpr ⟨hne, h.finds hfinds⟩

/-- Where there is more, no fewer paths are watched. -/
theorem Widens.watchedPaths {input : Input} {path : Text}
    (hpath : .ok path ∈ input.watchedPaths files) : .ok path ∈ input.watchedPaths files' := by
  unfold Input.watchedPaths at *
  rcases List.mem_cons.mp hpath with hown | hpath
  · exact List.mem_cons.mpr (.inl hown)
  · refine List.mem_cons_of_mem _ ?_
    split at hpath
    · simp at hpath
    · obtain ⟨element, helement, hfound⟩ := List.mem_flatMap.mp hpath
      refine List.mem_flatMap.mpr ⟨element, helement, ?_⟩
      cases element with
      | text pattern =>
          obtain ⟨found, hglob, hsame⟩ := List.mem_map.mp hfound
          exact List.mem_map.mpr ⟨found, h.glob _ hglob, hsame⟩
      | _ => simp [Input.dependencyPaths] at hfound

end Widens

end FileSystem

open FileSystem

/-! ## Files that are as they were or newer than all before -/

namespace Workspace

/-- Whether a workspace is another with more in it, where each file is as it was or was written
to at a time after the clock of before. -/
structure Ages (before after : Workspace) : Prop where
  files : before.files.Widens after.files
  clock : before.files.clock ≤ after.files.clock
  written : before.written <+: after.written
  file : ∀ path, after.files.file? path = before.files.file? path ∨
    after.files.key path ∈ after.writtenSince before.written.length ∧
      ∃ file, after.files.file? path = some file ∧ before.files.clock < file.time

theorem mem_writtenSince_of_le {workspace : Workspace} {count count' : Nat} {key : Text}
    (hcount : count ≤ count') (hkey : key ∈ workspace.writtenSince count') :
    key ∈ workspace.writtenSince count :=
  (List.drop_sublist_drop_left _ hcount).subset hkey

theorem Ages.mem_writtenSince {before after : Workspace} (h : before.Ages after) {count : Nat}
    {key : Text} (hkey : key ∈ before.writtenSince count) : key ∈ after.writtenSince count :=
  (h.written.drop count).subset hkey

instance : IsPreorder Workspace Ages where
  refl workspace := ⟨.refl _, le_rfl, List.prefix_rfl, fun _ => .inl rfl⟩
  trans first second third h h' := by
    refine ⟨h.files.trans h'.files, h.clock.trans h'.clock, h.written.trans h'.written,
      fun path => ?_⟩
    rcases h'.file path with hsame | ⟨hkey, file, hfile, htime⟩
    · rcases h.file path with hsame' | ⟨hkey, file, hfile, htime⟩
      · exact .inl (hsame.trans hsame')
      · refine .inr ⟨?_, file, hsame.trans hfile, htime⟩
        rw [key_congr h'.files.current]
        exact h'.mem_writtenSince hkey
    · exact .inr ⟨mem_writtenSince_of_le h.written.length_le hkey, file, hfile,
        h.clock.trans_lt htime⟩

theorem Reads.ages {before after : Workspace} (h : Reads before after) : Ages before after where
  files := h.files ▸ .refl _
  clock := h.files ▸ le_rfl
  written := h.written ▸ List.prefix_rfl
  file _ := .inl (by rw [h.files])

/-- Whether a file was written to a path after the clock of a workspace. -/
def HasNewer (before : Workspace) (files : FileSystem) (path : Text) : Prop :=
  ∃ file, files.file? path = some file ∧ before.files.clock < file.time

end Workspace

section Writing

variable {before : Workspace}

theorem ages_makeDirectories (path : Text) :
    Leads Ages (makeDirectories path) before fun _ _ => True :=
  Leads.of_modify ⟨widens_makeDirectories _ path, le_rfl, List.prefix_rfl, fun _ => .inl rfl⟩
    trivial

theorem file?_of_write_self {files after : FileSystem} {path other : Text} {bytes : ByteArray}
    (hwrite : files.write path bytes = .ok after) (hkey : files.key other = files.key path) :
    ∃ file, after.file? other = some file ∧ file.time = files.clock + 1 := by
  unfold FileSystem.write at hwrite
  split at hwrite
  · cases hwrite
  · obtain rfl := Except.ok.inj hwrite
    exact ⟨_, file?_place_self _ hkey, rfl⟩

theorem clock_of_write {files after : FileSystem} {path : Text} {bytes : ByteArray}
    (hwrite : files.write path bytes = .ok after) : after.clock = files.clock + 1 := by
  unfold FileSystem.write at hwrite
  split at hwrite
  · cases hwrite
  · obtain rfl := Except.ok.inj hwrite
    rfl

theorem ages_write (target : Text) (bytes : ByteArray) :
    Leads Ages (Work.write target bytes) before fun _ after =>
      before.HasNewer after.files target := by
  apply Leads.write
  intro files hwrite
  have hclock := clock_of_write hwrite
  have hnewer {path : Text} (hkey : before.files.key path = before.files.key target) :
      before.HasNewer files path := by
    obtain ⟨file, hfile, htime⟩ := file?_of_write_self hwrite hkey
    exact ⟨file, hfile, by omega⟩
  refine ⟨⟨widens_of_write hwrite, by simp only; omega, List.prefix_append _ _,
    fun path => ?_⟩, hnewer rfl⟩
  by_cases hkey : before.files.key path = before.files.key target
  · refine .inr ⟨?_, hnewer hkey⟩
    have hcurrent := (widens_of_write hwrite).current
    rw [← key_congr hcurrent, ← key_congr hcurrent] at hkey
    simp [writtenSince, hkey]
  · exact .inl ((file?_of_write hwrite).2 path hkey)

theorem ages_writeText (target text : Text) :
    Leads Ages (writeText target text) before fun _ after =>
      before.HasNewer after.files target :=
  Leads.writeText (ages_write target)

end Writing

namespace Packer

variable {packer : Packer} {before : Workspace}

theorem ages_writeAsset (name : Text) (inputs : List Input) (path : Text) :
    Leads Ages (packer.write name inputs path) before fun _ after =>
      before.HasNewer after.files path := by
  refine leads_writeAsset Reads.ages (ages_makeDirectories _)
    (fun between _ text => (ages_writeText _ text).mono fun _ _ _ _ => trivial)
    fun between hbetween text => (ages_writeText path text).mono ?_
  rintro _ _ - ⟨file, hfile, htime⟩
  exact ⟨file, hfile, hbetween.clock.trans_lt htime⟩

theorem ages_copyFile (path : Text) : Leads Ages (packer.copyFile path) before fun _ _ => True :=
  leads_copyFile_of Reads.ages (fun _ _ _ _ _ _ _ => trivial) fun _ _ _ _ _ _ _ =>
    ⟨(ages_makeDirectories _ _ _ rfl).1, fun bytes _ =>
      (ages_write _ bytes).mono fun _ _ _ _ => trivial⟩

theorem ages_copyFound : Leads Ages packer.copyFound before fun _ _ => True :=
  leads_copyFound_of fun _ path _ _ _ => ages_copyFile path

end Packer

end UrlRebase
