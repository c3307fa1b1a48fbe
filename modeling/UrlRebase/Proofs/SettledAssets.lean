import UrlRebase.Proofs.SparedPaths

/-!
# What a pack leaves of each asset

A pack goes through the assets one after the other.  As long as no asset is written over what
another is built from, or over another, a pack that ends normally settles each asset on the
files with which it started: the asset is written with its bytes on these files, or it is
passed over, since it was there and none of its inputs was newer.
-/

namespace UrlRebase.Packer

open Work Workspace FileSystem

variable {packer : Packer} {paths kept : Set Text} {files after after' : FileSystem}
  {entry other : Setting × Setting} {force : Bool}

theorem isOutput_of_packedOn
    {path : Text} {bytes : ByteArray} (h : packer.packedOn files entry = .ok (path, bytes)) :
    packer.IsOutput files.current entry path := by
  obtain ⟨_, -, h⟩ := Except.bind_eq_ok.mp h
  obtain ⟨name, hname, h⟩ := Except.bind_eq_ok.mp h
  obtain ⟨path', hpath, h⟩ := Except.bind_eq_ok.mp h
  obtain ⟨_, -, h⟩ := Except.bind_eq_ok.mp h
  obtain ⟨rfl, -⟩ := Prod.mk.inj (Except.ok.inj h)
  exact ⟨name, hname, hpath⟩

def outputOf (packer : Packer) (current : Text) (entry : Setting × Setting) : Set Text :=
  {path | packer.IsOutput current entry path}

/-- What a pack makes of an asset on some files, which are other files afterwards. -/
inductive IsSettled (packer : Packer) (force : Bool) (files after : FileSystem)
    (entry : Setting × Setting) : Prop
  | written {path : Text} {bytes : ByteArray}
      (hpacked : packer.packedOn files entry = .ok (path, bytes))
      (hbytes : after.HasBytes path bytes) : IsSettled packer force files after entry
  | passedOver (hforce : force = false) (hpassed : packer.IsPassedOver files entry)
      (hsame : files.SameAt (packer.outputOf files.current entry) after) :
      IsSettled packer force files after entry

theorem IsSettled.of_sameAt
    (h : packer.IsSettled force files after entry)
    (hsame : after.SameAt (packer.outputOf files.current entry) after') :
    packer.IsSettled force files after' entry := by
  cases h with
  | written hpacked hbytes =>
      exact .written hpacked (hbytes.of_sameAt hsame (isOutput_of_packedOn hpacked))
  | passedOver hforce hpassed hbefore => exact .passedOver hforce hpassed (hbefore.trans hsame)

/-! ## One asset -/

theorem of_timeOf
    {path : Text} {time : Int} {before between : Workspace}
    (hruns : Runs (timeOf path) before (.ok time) between) :
    before = between ∧ (time ≠ 0 →
      before.files.exists? path = true ∧ before.files.timeOf path = .ok time) := by
  unfold timeOf at hruns
  obtain ⟨workspace, _, hget, hruns⟩ := exists_of_bind hruns
  obtain ⟨hworkspace, rfl⟩ := Prod.mk.inj hget
  obtain rfl := Except.ok.inj hworkspace
  simp only at hruns
  split at hruns
  · rename_i hthere
    obtain ⟨htime, rfl⟩ := Prod.mk.inj hruns
    exact ⟨rfl, fun _ => ⟨hthere, Except.mapError_eq_ok.mp htime⟩⟩
  · obtain ⟨rfl, rfl⟩ := eq_of_pure hruns
    exact ⟨rfl, fun h => absurd rfl h⟩

theorem of_anyChangedAfter
    {inputs : List Input} {time : Int} {isChanged : Bool} {before between : Workspace}
    (hruns : Runs (anyChangedAfter inputs time) before (.ok isChanged) between) :
    before = between ∧ Input.anyIsNewer before.files time inputs = .ok isChanged := by
  obtain ⟨hchanged, rfl⟩ := Prod.mk.inj hruns
  exact ⟨rfl, hchanged⟩

/-- What the turn of an asset does: the files are known as before, whatever is apart from the
asset shows the same, and the asset is settled. -/
structure Settles (packer : Packer) (force : Bool) (paths : Set Text) (files : FileSystem)
    (entry : Setting × Setting) (before after : Workspace) : Prop where
  knows : after.Knows paths files
  spares : ∀ kept : Set Text,
    (∀ target, packer.WritesTo files.current entry target →
      ∀ path ∈ kept, before.files.Apart target path) → before.files.SameAt kept after.files
  settled : packer.IsSettled force files after.files entry

def IsApart (packer : Packer) (files : FileSystem) (entry : Setting × Setting)
    (paths : Set Text) : Prop :=
  ∀ target, packer.WritesTo files.current entry target → ∀ path ∈ paths, files.Apart target path

section Turn

variable {name path : Text} {inputs : List Input} {before after : Workspace}
  (hdrawn : packer.drawnOn files entry ⊆ paths) (hapart : packer.IsApart files entry paths)
  (hknows : before.Knows paths files)
include hdrawn hapart hknows

theorem settles_of_writeSheet
    {sheet : Sheet} (hinputs : packer.inputsOn files entry.2 = .ok inputs)
    (hname : fileName entry.1 = .ok name) (hpath : packer.outputPath files.current name = .ok path)
    (hruns : Runs (packer.writeSheet name inputs path) before (.ok sheet) after) :
    packer.Settles force paths files entry before after := by
  have hwithin := (drawsWithin_drawnOn hinputs).mono hdrawn
  have hisOutput : packer.IsOutput files.current entry path := ⟨name, hname, hpath⟩
  have hwrites : packer.WritesTo files.current entry path := ⟨path, hisOutput, .inl rfl⟩
  have hwritesMap : packer.WritesTo files.current entry (path ++ ".map".text) :=
    ⟨path, hisOutput, .inr rfl⟩
  have hpaths {target : Text} (htarget : packer.WritesTo files.current entry target) :
      ∀ other ∈ paths, before.files.Apart target other :=
    fun other hother => (hapart target htarget other hother).congr hknows.same hother
  have hwritten (kept : Set Text) (hkept : ∀ target, packer.WritesTo files.current entry target →
      ∀ other ∈ kept, before.files.Apart target other) := by
    have hboth : ∀ other ∈ paths ∪ kept,
        before.files.Apart path other ∧ before.files.Apart (path ++ ".map".text) other := by
      rintro other (hother | hother)
      · exact ⟨hpaths hwrites other hother, hpaths hwritesMap other hother⟩
      · exact ⟨hkept _ hwrites other hother, hkept _ hwritesMap other hother⟩
    exact of_writeSheet hwithin hknows Set.subset_union_left hboth hruns
  obtain ⟨hafter, -, bytes, hbytes, hthere⟩ := hwritten ∅ (by simp)
  refine ⟨hafter, fun kept hkept => ?_, .written ?_ hthere⟩
  · exact (hwritten kept hkept).2.1.mono Set.subset_union_right
  · exact Except.bind_eq_ok.mpr ⟨inputs, hinputs, Except.bind_eq_ok.mpr ⟨name, hname,
      Except.bind_eq_ok.mpr ⟨path, hpath, Except.bind_eq_ok.mpr ⟨bytes, hbytes, rfl⟩⟩⟩⟩

variable (houtput : files.SameAt (packer.outputOf files.current entry) before.files)
include houtput

theorem settles_of_packSheet
    {sheet? : Option Sheet} (hinputs : packer.inputsOn files entry.2 = .ok inputs)
    (hname : fileName entry.1 = .ok name)
    (hruns : Runs (packer.packSheet force name inputs) before (.ok sheet?) after) :
    packer.Settles force paths files entry before after := by
  unfold packSheet at hruns
  obtain ⟨current, _, hcurrent, hruns⟩ := exists_of_bind hruns
  obtain ⟨rfl, rfl⟩ := eq_of_current hcurrent
  obtain ⟨path, hpath, hruns⟩ := exists_of_lift_bind hruns
  rw [hknows.same.current] at hpath
  have hisOutput : path ∈ packer.outputOf files.current entry := ⟨name, hname, hpath⟩
  obtain ⟨time, _, htime, hruns⟩ := exists_of_bind hruns
  obtain ⟨rfl, hwhen⟩ := of_timeOf htime
  have hwritten {sheet : Sheet}
      (hruns : Runs (packer.writeSheet name inputs path) before (.ok sheet) after) :
      packer.Settles force paths files entry before after :=
    settles_of_writeSheet hdrawn hapart hknows hinputs hname hpath hruns
  split at hruns
  · obtain ⟨sheet, _, hsheet, hruns⟩ := exists_of_bind hruns
    obtain ⟨-, rfl⟩ := eq_of_pure hruns
    exact hwritten hsheet
  · rename_i hneeded
    rw [Bool.or_eq_true, decide_eq_true_iff, not_or, Bool.not_eq_true] at hneeded
    obtain ⟨isChanged, _, hchanged, hruns⟩ := exists_of_bind hruns
    obtain ⟨rfl, hnewer⟩ := of_anyChangedAfter hchanged
    cases isChanged with
    | true =>
        obtain ⟨sheet, _, hsheet, hruns⟩ := exists_of_bind hruns
        obtain ⟨-, rfl⟩ := eq_of_pure hruns
        exact hwritten hsheet
    | false =>
        obtain ⟨-, rfl⟩ := eq_of_pure hruns
        obtain ⟨hthere, htime⟩ := hwhen hneeded.2
        refine ⟨hknows, fun _ _ => .refl _ _, .passedOver hneeded.1 ?_ houtput⟩
        refine ⟨path, time, inputs, hisOutput, ?_, ?_, hneeded.2, hinputs, fun input hinput => ?_⟩
        · rw [← houtput.timeOf hisOutput, htime]
        · rw [← houtput.exists? hisOutput, hthere]
        · obtain ⟨changed, hchanged, hle⟩ :=
            exists_time_of_anyIsNewer hnewer input hinput input.path List.mem_cons_self
          have hlooked := hdrawn (.inl (searchesFor_of_inputsOn hinputs input hinput))
          exact ⟨changed, (hknows.same.timeOf hlooked).symm.trans hchanged, hle⟩

theorem settles_of_packEntry
    {sheet? : Option Sheet}
    (hruns : Runs (packer.packEntry none force entry) before (.ok sheet?) after) :
    packer.Settles force paths files entry before after := by
  unfold packEntry at hruns
  obtain ⟨inputs, between, hfound, hruns⟩ := exists_of_bind hruns
  obtain ⟨hinputs, hbetween, hfiles⟩ :=
    (gives_inputsOf fun path hpath => hdrawn (.inl hpath)).eq_of_runs hknows hfound
  rw [isAsked, if_pos rfl] at hruns
  obtain ⟨name, hname, hruns⟩ := exists_of_lift_bind hruns
  obtain ⟨hafter, hspares, hsettled⟩ := settles_of_packSheet hdrawn hapart hbetween
    (hfiles ▸ houtput) hinputs.symm hname hruns
  exact ⟨hafter, hfiles ▸ hspares, hsettled⟩

end Turn

/-! ## All assets -/

/-- Where files can be copied to. -/
def CopiesTo (packer : Packer) (current target : Text) : Prop :=
  packer.options.mode = .contentDerived ∧
    ∃ bytes path, packer.target current (digestName bytes path) = .ok target

/-- Whether no asset is written over what one of them is built from or over another asset. -/
structure Separate (packer : Packer) (files : FileSystem) (entries : List (Setting × Setting)) :
    Prop where
  consulted : ∀ entry ∈ entries, ∀ other ∈ entries,
    packer.IsApart files entry (packer.consulted files other)
  outputs : entries.Pairwise fun entry other =>
    packer.IsApart files entry (packer.outputOf files.current other) ∧
      packer.IsApart files other (packer.outputOf files.current entry)
  plain : ∀ entry ∈ entries, ∀ path ∈ packer.outputOf files.current entry,
    files.isDirectory path = false
  copies : ∀ target, packer.CopiesTo files.current target → ∀ entry ∈ entries,
    ∀ path ∈ packer.consulted files entry ∪ packer.outputOf files.current entry,
      files.Apart target path

def allConsulted (packer : Packer) (files : FileSystem) (entries : List (Setting × Setting)) :
    Set Text :=
  {path | ∃ entry ∈ entries, path ∈ packer.consulted files entry}

section Copying

/-- Whether a workspace is another that shows the same at some paths, and holds names after
contents if the other does. -/
structure Copies (kept : Set Text) (before after : Workspace) : Prop where
  same : before.files.SameAt kept after.files
  digests : before.NamesDigests → after.NamesDigests

instance : IsPreorder Workspace (Copies kept) where
  refl _ := ⟨.refl _ _, id⟩
  trans _ _ _ h h' := ⟨h.same.trans h'.same, fun hdigests => h'.digests (h.digests hdigests)⟩

theorem copies_of_reads {before after : Workspace} (h : before.Reads after) :
    Copies kept before after :=
  ⟨h.files ▸ .refl _ _, h.learns.digests⟩

variable {before : Workspace}

theorem leads_copies_write
    {target : Text} (bytes : ByteArray) (h : ∀ path ∈ kept, before.files.Apart target path) :
    Leads (Copies kept) (Work.write target bytes) before fun _ _ => True :=
  Leads.write fun _ hwrite => ⟨⟨sameAt_of_write h hwrite, id⟩, trivial⟩

theorem leads_copies_copyFile
    (h : ∀ target, (∃ bytes path,
        packer.target before.files.current (digestName bytes path) = .ok target) →
      ∀ path ∈ kept, before.files.Apart target path)
    (hdigests : before.NamesDigests) (path : Text) :
    Leads (Copies kept) (packer.copyFile path) before fun _ _ => True := by
  refine leads_copyFile_of copies_of_reads (fun _ _ _ _ _ _ _ => trivial) ?_
  intro name target logged hlogged hname htarget _
  have hapart : ∀ other ∈ kept, logged.files.Apart target other := by
    obtain ⟨bytes, rfl⟩ := hlogged.learns.digests hdigests path name hname
    rw [hlogged.files] at htarget ⊢
    exact h target ⟨bytes, path, htarget⟩
  have hmade : Copies kept logged
      { logged with files := logged.files.makeDirectories (Path.dirname target) } :=
    ⟨sameAt_makeDirectories fun other hother => (hapart other hother).directory _ (.inr rfl), id⟩
  exact ⟨hmade, fun bytes _ => leads_copies_write bytes fun other hother =>
    (hapart other hother).congr hmade.same hother⟩

theorem leads_copies_copyFound
    (h : ∀ target, packer.CopiesTo before.files.current target →
      ∀ path ∈ kept, before.files.Apart target path)
    (hdigests : before.NamesDigests) :
    Leads (Copies kept) packer.copyFound before fun _ _ => True := by
  refine leads_copyFound_of fun hmode path _ between hbetween => ?_
  refine leads_copies_copyFile ?_ (hbetween.digests hdigests) path
  rintro target ⟨bytes, file, htarget⟩ other hother
  rw [hbetween.same.current] at htarget
  exact (h target ⟨hmode, bytes, file, htarget⟩ other hother).congr hbetween.same hother

end Copying

/-! ## Packs -/

def allOutputs (packer : Packer) (current : Text) (entries : List (Setting × Setting)) :
    Set Text :=
  {path | ∃ entry ∈ entries, path ∈ packer.outputOf current entry}

theorem IsApart.congr
    (h : packer.IsApart files entry kept) (hcurrent : after.current = files.current)
    (hplain : ∀ path ∈ kept, files.isDirectory path = false) :
    packer.IsApart after entry kept :=
  fun target htarget path hpath => (h target (hcurrent ▸ htarget) path hpath).congr_of_plain
    hcurrent (hplain path hpath)

/-- Each asset of a list is settled by its turn, and the turns of the others leave it so. -/
theorem settled_of_packEntries
    {entries : List (Setting × Setting)} {before after : Workspace} {sheets : List (Option Sheet)}
    (hentries : ∀ entry ∈ entries, packer.drawnOn files entry ⊆ paths ∧
      packer.IsApart files entry paths ∧ ∀ path ∈ packer.outputOf files.current entry, files.isDirectory path = false)
    (hapart : entries.Pairwise fun entry other =>
      packer.IsApart files entry (packer.outputOf files.current other) ∧
        packer.IsApart files other (packer.outputOf files.current entry))
    (hknows : before.Knows paths files)
    (houtputs : files.SameAt (packer.allOutputs files.current entries) before.files)
    (hruns : Runs (entries.mapM (packer.packEntry none force)) before (.ok sheets) after) :
    after.Knows paths files ∧
      (∀ kept : Set Text, (∀ entry ∈ entries, packer.IsApart before.files entry kept) →
        before.files.SameAt kept after.files) ∧
      ∀ entry ∈ entries, packer.IsSettled force files after.files entry := by
  -- What is known of the files and the paths of the assets still to come carry the induction.
  induction entries generalizing before sheets with
  | nil =>
      obtain ⟨-, rfl⟩ := eq_of_pure hruns
      exact ⟨hknows, fun _ _ => .refl _ _, by simp⟩
  | cons entry rest ih =>
      obtain ⟨⟨hdrawn, hpaths, hplain⟩, hrest⟩ := List.forall_mem_cons.mp hentries
      obtain ⟨hentry, hapartRest⟩ := List.pairwise_cons.mp hapart
      rw [List.mapM_cons] at hruns
      obtain ⟨sheet?, between, hsheet, hruns⟩ := exists_of_bind hruns
      obtain ⟨others, _, hothers, hruns⟩ := exists_of_bind hruns
      obtain rfl := (eq_of_pure hruns).2.symm
      have hown : packer.outputOf files.current entry ⊆
          packer.allOutputs files.current (entry :: rest) :=
        fun path hpath => ⟨entry, List.mem_cons_self, hpath⟩
      have hlater : packer.allOutputs files.current rest ⊆
          packer.allOutputs files.current (entry :: rest) :=
        fun path ⟨other, hother, hpath⟩ => ⟨other, List.mem_cons_of_mem entry hother, hpath⟩
      obtain ⟨hbetween, hspares, hsettled⟩ :=
        settles_of_packEntry hdrawn hpaths hknows (houtputs.mono hown) hsheet
      have hcurrent := hbetween.same.current
      have hspared : before.files.SameAt (packer.allOutputs files.current rest) between.files := by
        refine hspares _ ?_
        rintro target htarget path ⟨other, hother, hpath⟩
        exact ((hentry other hother).1 target htarget path hpath).congr_of_plain
          hknows.same.current ((hrest other hother).2.2 path hpath)
      obtain ⟨hafter, hsparesRest, hsettledRest⟩ := ih hrest hapartRest hbetween
        ((houtputs.mono hlater).trans hspared) hothers
      have hafterOwn : between.files.SameAt (packer.outputOf files.current entry) after.files :=
        hsparesRest _ fun other hother => (hentry other hother).2.congr hcurrent hplain
      refine ⟨hafter, fun kept hkept => ?_, List.forall_mem_cons.mpr
        ⟨hsettled.of_sameAt hafterOwn, hsettledRest⟩⟩
      obtain ⟨hkeptEntry, hkeptRest⟩ := List.forall_mem_cons.mp hkept
      have hsame := hspares kept (hknows.same.current ▸ hkeptEntry)
      refine hsame.trans (hsparesRest kept fun other hother target htarget path hpath => ?_)
      rw [hsame.current] at htarget
      exact (hkeptRest other hother target htarget path hpath).congr hsame hpath

/-- A pack that ends normally settles every asset before it copies files, if no asset is written
over what is built from or over another. -/
theorem settled_before_copies
    {entries : List (Setting × Setting)} {before after : Workspace}
    (hentries : packer.entries = .ok entries)
    (hturns : ∀ entry ∈ entries, packer.drawnOn before.files entry ⊆ paths ∧
      packer.IsApart before.files entry paths ∧
      ∀ path ∈ packer.outputOf before.files.current entry, before.files.isDirectory path = false)
    (hapart : entries.Pairwise fun entry other =>
      packer.IsApart before.files entry (packer.outputOf before.files.current other) ∧
        packer.IsApart before.files other (packer.outputOf before.files.current entry))
    (hruns : Runs (packer.pack none force) before (.ok ⟨⟩) after) :
    ∃ packed, Runs packer.copyFound packed (.ok ⟨⟩) after ∧ packed.Knows paths before.files ∧
      ∀ entry ∈ entries, packer.IsSettled force before.files packed.files entry := by
  obtain ⟨result, hsheets, hresult⟩ := runs_packSheets_of_pack hruns
  cases result with
  | error error => cases hresult
  | ok sheets =>
      unfold packSheets at hsheets
      obtain ⟨_, start, hforget, hsheets⟩ := exists_of_bind hsheets
      obtain ⟨-, rfl⟩ := Prod.mk.inj hforget
      obtain ⟨entries', hentries', hsheets⟩ := exists_of_lift_bind hsheets
      obtain rfl := Except.ok.inj (hentries.symm.trans hentries')
      obtain ⟨_, packed, hpacked, hsheets⟩ := exists_of_bind hsheets
      obtain ⟨_, _, hcopied, hsheets⟩ := exists_of_bind hsheets
      obtain rfl := (eq_of_pure hsheets).2.symm
      have hknows : (forgotten before).Knows paths before.files :=
        ⟨.refl _ _, by simp [forgotten, Cache.empty, Cache.find?],
          by simp [forgotten, Cache.empty, Cache.find?]⟩
      obtain ⟨hpackedKnows, -, hsettled⟩ :=
        settled_of_packEntries hturns hapart hknows (.refl _ _) hpacked
      exact ⟨packed, hcopied, hpackedKnows, hsettled⟩

/-- A pack that ends normally settles every asset, and leaves everything that was consulted as
it was. -/
theorem settled_of_pack
    {entries : List (Setting × Setting)} {before after : Workspace}
    (hentries : packer.entries = .ok entries) (honly : ∀ entry ∈ entries, packer.OnlyRebases entry)
    (hseparate : packer.Separate before.files entries)
    (hruns : Runs (packer.pack none force) before (.ok ⟨⟩) after) :
    before.files.SameAt (packer.allConsulted before.files entries) after.files ∧
      ∀ entry ∈ entries, packer.IsSettled force before.files after.files entry := by
  have hconsulted : ∀ entry ∈ entries, packer.IsApart before.files entry
      (packer.allConsulted before.files entries) := by
    rintro entry hentry target htarget path ⟨other, hother, hpath⟩
    exact hseparate.consulted entry hentry other hother target htarget path hpath
  have hturns : ∀ entry ∈ entries,
      packer.drawnOn before.files entry ⊆ packer.allConsulted before.files entries ∧
      packer.IsApart before.files entry (packer.allConsulted before.files entries) ∧
      ∀ path ∈ packer.outputOf before.files.current entry,
        before.files.isDirectory path = false :=
    fun entry hentry => ⟨fun path hpath =>
      ⟨entry, hentry, drawnOn_subset_consulted (honly entry hentry) hpath⟩,
      hconsulted entry hentry, hseparate.plain entry hentry⟩
  obtain ⟨packed, hcopied, hknows, hsettled⟩ :=
    settled_before_copies hentries hturns hseparate.outputs hruns
  have hcurrent := hknows.same.current
  have hcopies : packed.files.SameAt (packer.allConsulted before.files entries ∪
      packer.allOutputs before.files.current entries) after.files := by
    refine (leads_copies_copyFound ?_ hknows.namesDigests _ _ hcopied).1.same
    intro target htarget path hpath
    rw [hcurrent] at htarget
    rcases hpath with ⟨entry, hentry, hpath⟩ | ⟨entry, hentry, hpath⟩
    · exact (hseparate.copies target htarget entry hentry path (.inl hpath)).congr
        hknows.same ⟨entry, hentry, hpath⟩
    · exact (hseparate.copies target htarget entry hentry path (.inr hpath)).congr_of_plain
        hcurrent (hseparate.plain entry hentry path hpath)
  refine ⟨hknows.same.trans (hcopies.mono Set.subset_union_left), fun entry hentry => ?_⟩
  exact (hsettled entry hentry).of_sameAt
    (hcopies.mono fun path hpath => .inr ⟨entry, hentry, hpath⟩)

end UrlRebase.Packer
