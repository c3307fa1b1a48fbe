import UrlRebase.Proofs.SparedPaths
import UrlRebase.Proofs.StoredFiles

/-!
# Names of copied files

A file is copied under the name after the content that it had when a style sheet was found to
name it.  Nothing changes the file between then and the copying but the pack itself, which may
write an asset over it.  So a copy has the name after its own content unless what was copied
was written in the same pack.
-/

namespace UrlRebase.Packer

open Work Workspace FileSystem

/-! ## Copies -/

/-- A file that is copied: its path, the name after its content and the place of the copy. -/
structure CopiedFile where
  path : Text
  name : Text
  target : Text
  bytes : ByteArray

/-- Whether a file is a copy of one that was found.  Its name is after the bytes that were
copied, unless the file that was copied is one of those that were changed. -/
structure IsCopy (packer : Packer) (found : List Text) (changed : Set Text)
    (workspace : Workspace) (copy : CopiedFile) : Prop where
  found : copy.path ∈ found
  source : workspace.files.HasBytes copy.path copy.bytes
  target : packer.target workspace.files.current copy.name = .ok copy.target
  bytes : workspace.files.HasBytes copy.target copy.bytes
  name : ∃ bytes, copy.name = digestName bytes copy.path ∧
    (workspace.files.key copy.path ∈ changed ∨ bytes = copy.bytes)

variable {packer : Packer} {found : List Text} {changed : Set Text} {before after : Workspace}

theorem IsCopy.of_grows
    {copy : CopiedFile} (h : packer.IsCopy found changed before copy)
    (hgrows : before.files.Grows after.files)
    (hkept : ∀ path file, before.files.file? path = some file →
      after.files.file? path = some file) :
    packer.IsCopy found changed after copy := by
  refine ⟨h.found, h.source.of_kept hkept, ?_, h.bytes.of_kept hkept, ?_⟩
  · rw [hgrows.current]
    exact h.target
  · rw [key_congr hgrows.current]
    exact h.name

/-- Whether a workspace is another to which nothing but copies were added. -/
structure Copying (packer : Packer) (found : List Text) (changed : Set Text)
    (before after : Workspace) : Prop where
  grows : before.files.Grows after.files
  kept : ∀ path file, before.files.file? path = some file → after.files.file? path = some file
  named : before.NamesBut changed → after.NamesBut changed
  copies : before.NamesBut changed → ∃ copies : List CopiedFile,
    after.written = before.written ++ copies.map (fun copy => before.files.key copy.target) ∧
      ∀ copy ∈ copies, packer.IsCopy found changed after copy

theorem copying_of_reads (h : before.Reads after) :
    packer.Copying found changed before after where
  grows := h.files ▸ .refl _
  kept := by
    rw [h.files]
    exact fun _ _ hfile => hfile
  named := h.named changed
  copies _ := ⟨[], by simp [h.written], by simp⟩

instance : IsPreorder Workspace (packer.Copying found changed) where
  refl workspace := copying_of_reads (refl workspace)
  trans first second third h h' := by
    have hkept (path : Text) (file : File) (hfile : first.files.file? path = some file) :
        third.files.file? path = some file :=
      h'.kept path file (h.kept path file hfile)
    refine ⟨h.grows.trans h'.grows, hkept, fun hnamed => h'.named (h.named hnamed), ?_⟩
    intro hnamed
    obtain ⟨copies, hwritten, hcopies⟩ := h.copies hnamed
    obtain ⟨others, hwritten', hothers⟩ := h'.copies (h.named hnamed)
    refine ⟨copies ++ others, ?_, ?_⟩
    · simp only [hwritten', hwritten, List.map_append, List.append_assoc,
        key_congr h.grows.current]
    · intro copy hcopy
      rcases List.mem_append.mp hcopy with hcopy | hcopy
      · exact (hcopies copy hcopy).of_grows h'.grows h'.kept
      · exact hothers copy hcopy

/-! ## Copying -/

theorem copying_makeDirectories (path : Text) :
    packer.Copying found changed before
      { before with files := before.files.makeDirectories path } where
  grows := grows_makeDirectories _ path
  kept _ _ hfile := hfile
  named hnamed := hnamed
  copies _ := ⟨[], by simp, by simp⟩

/-- Writing what was read where nothing was is copying. -/
theorem copying_write
    {files : FileSystem} {path name target : Text} {bytes : ByteArray}
    (hfound : path ∈ found) (hname : before.names.find? path = some name)
    (hread : before.files.HasBytes path bytes)
    (htarget : packer.target before.files.current name = .ok target)
    (hnone : before.files.file? target = none)
    (hwrite : before.files.write target bytes = .ok files) :
    packer.Copying found changed before
      { before with files, written := before.written ++ [files.key target] } := by
  have hgrows := (write_eq_ok hwrite).1
  obtain ⟨hthere, hothers⟩ := file?_of_write hwrite
  have hkept (other : Text) (file : File) (hfile : before.files.file? other = some file) :
      files.file? other = some file := by
    rw [hothers other, hfile]
    intro hkey
    have hsame : before.files.file? other = before.files.file? target := by
      rw [file?, file?, hkey]
    rw [hsame, hnone] at hfile
    cases hfile
  refine ⟨hgrows, hkept, ?_, ?_⟩
  · intro hnamed other name hname
    obtain ⟨content, hdigest, hcontent⟩ := hnamed other name hname
    refine ⟨content, hdigest, ?_⟩
    simp only [key_congr hgrows.current]
    exact hcontent.imp_right fun hcontent => HasBytes.of_kept hcontent hkept
  · intro hnamed
    obtain ⟨content, hdigest, hcontent⟩ := hnamed path name hname
    refine ⟨[⟨path, name, target, bytes⟩], ?_, ?_⟩
    · simp only [List.map_cons, List.map_nil, key_congr hgrows.current]
    · simp only [List.forall_mem_singleton]
      refine ⟨hfound, hread.of_kept hkept, ?_, hthere, content, hdigest, ?_⟩
      · rw [hgrows.current]
        exact htarget
      · simp only [key_congr hgrows.current]
        exact hcontent.imp_right fun hcontent => Option.some.inj (hcontent.symm.trans hread)

theorem leads_copying_copyFile {path : Text} (hfound : path ∈ found) :
    Leads (packer.Copying found changed) (packer.copyFile path) before fun _ _ => True := by
  refine leads_copyFile_of copying_of_reads (fun _ _ _ _ _ _ _ => trivial) ?_
  intro name target logged _ hname htarget hmissing
  refine ⟨copying_makeDirectories _, fun bytes hread => Leads.write fun _ hwrite =>
    ⟨copying_write hfound hname (bytes_of_read hread) htarget ?_ hwrite, trivial⟩⟩
  rw [FileSystem.exists?, Bool.or_eq_false_iff] at hmissing
  exact Option.isNone_iff_eq_none.mp (Option.isSome_eq_false_iff.mp hmissing.1)

theorem leads_copying_copyFound :
    Leads (packer.Copying before.assets changed) packer.copyFound before fun _ _ => True :=
  leads_copyFound_of fun _ _ hfound _ _ => leads_copying_copyFile hfound

/-! ## Packs in two parts -/

/-- The part of a pack that builds and writes the assets. -/
def packAssets (packer : Packer) (asset : Option Text) (force : Bool) : Work Unit := do
  forgetFiles
  (← Work.lift packer.entries).forM fun entry => do
    let inputs ← packer.inputsOf entry.2
    if isAsked asset entry.1 then
      packer.packInputs force (← Work.lift (fileName entry.1)) inputs

variable {asset : Option Text} {force : Bool} {result : Except Failure Unit}

theorem pack_eq_bind :
    packer.pack asset force = packer.packAssets asset force >>= fun _ => packer.copyFound := by
  unfold pack packAssets
  simp only [bind_assoc]

theorem follows_of_packAssets
    (hmode : packer.options.mode = .contentDerived)
    (hruns : Runs (packer.packAssets asset force) before result after) :
    Follows (forgotten before) after := by
  have hentries (entries : Setting.Members) :
      Leads Follows (entries.forM fun entry => do
        let inputs ← packer.inputsOf entry.2
        if isAsked asset entry.1 then
          packer.packInputs force (← Work.lift (fileName entry.1)) inputs) (forgotten before)
        fun _ _ => ∀ entry ∈ entries, True := by
    refine Leads.forM (fun _ _ _ _ _ => trivial) ?_
    intro entry _ between _
    rw [packEntry_eq, map_eq_pure_bind]
    apply (leads_packEntry hmode asset force entry).bind
    exact fun _ _ _ _ => Leads.of_pure trivial
  unfold packAssets at hruns
  have hrest : Leads Follows (do
      (← Work.lift packer.entries).forM fun entry => do
        let inputs ← packer.inputsOf entry.2
        if isAsked asset entry.1 then
          packer.packInputs force (← Work.lift (fileName entry.1)) inputs) (forgotten before)
      fun _ _ => True :=
    Leads.lift_bind fun entries _ => (hentries entries).mono fun _ _ _ _ => trivial
  exact (hrest _ _ hruns).1

/-- What a pack finds is named after its content, unless the pack wrote to it. -/
theorem namesBut_of_packAssets
    (hmode : packer.options.mode = .contentDerived)
    (hruns : Runs (packer.packAssets asset force) before result after) :
    after.NamesBut (after.writtenSince before.written.length) := by
  apply (follows_of_packAssets hmode hruns).named before.written.length le_rfl
  intro path name hname
  simp [forgotten, Cache.find?, Cache.empty] at hname

/-- Whatever was packed, saved or deleted before, the files that a pack copies are of those that
its style sheets were found to name, and each is under the name after the bytes that were
copied, unless the file that was copied is an asset, or the map of one, that the same pack
wrote.  A pack that does not get as far as copying copies nothing. -/
theorem copies_of_pack (hruns : Runs (packer.pack asset force) before result after) :
    (∃ error, result = .error error ∧
      Runs (packer.packAssets asset force) before (.error error) after) ∨
    ∃ (packed : Workspace) (copies : List CopiedFile),
      Runs (packer.packAssets asset force) before (.ok ⟨⟩) packed ∧
      Runs packer.copyFound packed result after ∧
      after.written = packed.written ++ copies.map (fun copy => after.files.key copy.target) ∧
      ∀ copy ∈ copies,
        packer.IsCopy packed.assets (packed.writtenSince before.written.length) after copy := by
  rw [pack_eq_bind] at hruns
  rcases runs_bind_cases hruns with ⟨_, packed, hassets, hcopied⟩ | ⟨error, rfl, hfailed⟩
  · right
    by_cases hmode : packer.options.mode = .contentDerived
    · have hnamed := namesBut_of_packAssets hmode hassets
      have hcopying : packer.Copying packed.assets
          (packed.writtenSince before.written.length) packed after :=
        (leads_copying_copyFound _ _ hcopied).1
      obtain ⟨copies, hwritten, hcopies⟩ := hcopying.copies hnamed
      refine ⟨packed, copies, hassets, hcopied, ?_, hcopies⟩
      simp only [hwritten, key_congr hcopying.grows.current]
    · refine ⟨packed, [], hassets, hcopied, ?_, by simp⟩
      unfold copyFound at hcopied
      rw [if_neg hmode] at hcopied
      obtain ⟨-, rfl⟩ := Prod.mk.inj hcopied
      simp
  · exact .inl ⟨error, rfl, hfailed⟩

theorem copies_of_forced_pack :
    ∃ (packed after : Workspace) (copies : List CopiedFile),
      Runs ((ofNames ["a.css".text]).pack none true) { files := twoSheets .empty } (.ok ⟨⟩) after ∧
      Runs (ofNames ["a.css".text]).copyFound packed (.ok ⟨⟩) after ∧
      copies.map (fun copy => after.files.key copy.target) =
        ["/p/out/".text ++ digestName .empty "i".text] ∧
      ∀ copy ∈ copies, (ofNames ["a.css".text]).IsCopy packed.assets
        (packed.writtenSince 0) after copy := by
  let packer := ofNames ["a.css".text]
  let before : Workspace := { files := twoSheets .empty }
  have hok : ((packer.pack none true).run.run before).1.isOk = true := by decide +kernel
  have hwritten : ((packer.pack none true).run.run before).2.written =
      ((packer.packAssets none true).run.run before).2.written ++
        ["/p/out/".text ++ digestName .empty "i".text] := by
    decide +kernel
  rcases copies_of_pack (runs_of_isOk hok) with
    ⟨_, hfailed, -⟩ | ⟨packed, copies, hassets, hcopied, hcopies, hnamed⟩
  · cases hfailed
  · refine ⟨packed, _, copies, runs_of_isOk hok, hcopied, ?_, hnamed⟩
    rw [hcopies, show (packer.packAssets none true).run.run before = (.ok ⟨⟩, packed) from hassets]
      at hwritten
    exact List.append_cancel_left hwritten

/-- The style sheet `a.css`, which names `b.css`, and two others. -/
def threeSheets : FileSystem :=
  (((FileSystem.empty "/p".text).place "/p/src/a.css".text
    ⟨"a\x7bb:url(b.css)\x7d".toUTF8, 1, true⟩).place "/p/src/b.css".text
      ⟨"b\x7b\x7d".toUTF8, 1, true⟩).place "/p/src/c.css".text ⟨"c\x7b\x7d".toUTF8, 1, true⟩

/-- A packer that writes `b.css`, made of `c.css`, among its inputs. -/
def overwriting : Packer :=
  { ofNames [] with
    location := .text "src".text
    assets := .table none
      [(.text "a.css".text, .text "a.css".text), (.text "b.css".text, .text "c.css".text)] }

/-- A file that the pack writes after a style sheet was found to name it is copied under the
name after what it had before. -/
theorem exists_stale_copy :
    ∃ after : Workspace,
      Runs (overwriting.pack none true) { files := threeSheets } (.ok ⟨⟩) after ∧
      after.written = ["/p/src/a.css".text, "/p/src/b.css".text,
        "/p/src/".text ++ digestName "b\x7b\x7d".toUTF8 "/p/src/b.css".text] ∧
      after.files.HasBytes
        ("/p/src/".text ++ digestName "b\x7b\x7d".toUTF8 "/p/src/b.css".text)
        "c\x7b\x7d".toUTF8 ∧
      digestName "c\x7b\x7d".toUTF8 "/p/src/b.css".text ≠
        digestName "b\x7b\x7d".toUTF8 "/p/src/b.css".text := by
  have hok : ((overwriting.pack none true).run.run { files := threeSheets }).1.isOk = true := by
    decide +kernel
  refine ⟨_, runs_of_isOk hok, by decide +kernel, ?_, by decide +kernel⟩
  unfold HasBytes
  decide +kernel

end UrlRebase.Packer
