import UrlRebase.Pack.Output
import UrlRebase.Proofs.BuiltSheets

/-!
# Files that stay beside packed assets

A pack that ends normally copies every file that it found, so all style sheets that it wrote
name files that are there.  They stay there: no later pack takes a file away, whether it ends
normally or not, and no file that is saved or deleted elsewhere does.

A pack that is stopped by a fault copies nothing, and a later one passes over what was
written before the fault if it is up to date.  So nothing is promised for its style sheets
until they are written again.
-/

namespace UrlRebase

open Workspace Work

/-- A style sheet that was written: the asset that it is and its path, the files when it was
built, and what it was built from. -/
structure Sheet where
  name : Text
  path : Text
  files : FileSystem
  inputs : List Input
  /-- The text, without the line that names its map. -/
  text : Text

namespace Packer

/-! ## Packing that tells what it writes -/

/-- As `write`, and tells what was written. -/
def writeSheet (packer : Packer) (name : Text) (inputs : List Input) (path : Text) :
    Work Sheet := do
  Work.makeDirectories (Path.dirname path)
  let files := (← get).files
  let (text, map) ← packer.build name inputs path
  match map with
  | none => Work.writeText path text
  | some map =>
      Work.writeText (path ++ ".map".text) (← Work.lift (map.print.mapError .mapWrite))
      let mapName := Path.basename name ++ ".map".text
      Work.writeText path (text ++ trailer mapName)
  return { name, path, files, inputs, text }

/-- As `packInputs`, and tells what was written. -/
def packSheet (packer : Packer) (force : Bool) (name : Text) (inputs : List Input) :
    Work (Option Sheet) := do
  let path ← Work.lift (packer.outputPath (← Work.current) name)
  let time ← timeOf path
  if force || time = 0 then return some (← packer.writeSheet name inputs path)
  else if ← anyChangedAfter inputs time then return some (← packer.writeSheet name inputs path)
  else return none

/-- Packs an asset that is asked for, and tells what was written. -/
def packEntry (packer : Packer) (asset : Option Text) (force : Bool) (entry : Setting × Setting) :
    Work (Option Sheet) := do
  let inputs ← packer.inputsOf entry.2
  if isAsked asset entry.1 then
    packer.packSheet force (← Work.lift (fileName entry.1)) inputs
  else return none

/-- As `pack`, and tells what was written. -/
def packSheets (packer : Packer) (asset : Option Text) (force : Bool) : Work (List Sheet) := do
  forgetFiles
  let sheets ← (← Work.lift packer.entries).mapM (packer.packEntry asset force)
  packer.copyFound
  return sheets.reduceOption

variable {packer : Packer}

/-- Asking for the workspace and not using it is doing nothing. -/
theorem get_bind_of_const {α : Type} {next : Workspace → Work α} {action : Work α}
    (h : ∀ workspace, next workspace = action) : get >>= next = action := by
  rw [funext h]
  rfl

theorem write_eq (name : Text) (inputs : List Input) (path : Text) :
    packer.write name inputs path = (fun _ => ⟨⟩) <$> packer.writeSheet name inputs path := by
  unfold write writeSheet
  simp only [map_bind]
  congr 1
  funext _
  refine Eq.symm (get_bind_of_const fun workspace => ?_)
  congr 1
  funext built
  obtain ⟨text, map⟩ := built
  cases map <;> simp

theorem packInputs_eq (force : Bool) (name : Text) (inputs : List Input) :
    packer.packInputs force name inputs = (fun _ => ⟨⟩) <$> packer.packSheet force name inputs := by
  unfold packInputs packSheet
  simp only [map_bind, write_eq]
  congr 1
  funext current
  congr 1
  funext path
  congr 1
  funext time
  split
  · simp
  · simp only [map_bind]
    congr 1
    funext isChanged
    cases isChanged <;> simp

theorem forM_eq {α β : Type} {f : α → Work PUnit} {g : α → Work β}
    (h : ∀ a, f a = (fun _ => ⟨⟩) <$> g a) (list : List α) :
    list.forM f = (fun _ => ⟨⟩) <$> list.mapM g := by
  induction list with
  | nil => rfl
  | cons a rest ih =>
      rw [List.forM, List.mapM_cons, h, ih]
      simp

theorem packEntry_eq (asset : Option Text) (force : Bool) (entry : Setting × Setting) :
    (do
      let inputs ← packer.inputsOf entry.2
      if isAsked asset entry.1 then
        packer.packInputs force (← Work.lift (fileName entry.1)) inputs) =
      (fun _ => ⟨⟩) <$> packer.packEntry asset force entry := by
  unfold packEntry
  simp only [map_bind, packInputs_eq]
  congr 1
  funext inputs
  split <;> simp

theorem pack_eq (asset : Option Text) (force : Bool) :
    packer.pack asset force = (fun _ => ⟨⟩) <$> packer.packSheets asset force := by
  unfold pack packSheets
  simp only [forM_eq (packEntry_eq asset force), map_bind]
  simp

/-! ## Steps that write -/

section Writing

variable {before : Workspace}

theorem leads_makeDirectories (path : Text) :
    Leads Follows (makeDirectories path) before fun _ _ => True :=
  Leads.of_modify ⟨FileSystem.grows_makeDirectories _ path, .of_eq rfl rfl, List.prefix_rfl,
    fun _ _ h => h⟩ trivial

/-- Names of files that are not written to stay names after their contents. -/
theorem namesBut_of_write
    {files : FileSystem} {path : Text} {bytes : ByteArray} {count : Nat}
    (hcount : count ≤ before.written.length) (hwrite : before.files.write path bytes = .ok files)
    (h : before.NamesBut (before.writtenSince count)) :
    Workspace.NamesBut
      (Workspace.writtenSince count
        { before with files, written := before.written ++ [files.key path] })
      { before with files, written := before.written ++ [files.key path] } := by
  have hcurrent := (FileSystem.write_eq_ok hwrite).1.current
  have hwritten : (before.written ++ [files.key path]).drop count =
      before.written.drop count ++ [files.key path] := List.drop_append_of_le_length hcount
  intro other name hname
  obtain ⟨content, hdigest, hcontent⟩ := h other name hname
  refine ⟨content, hdigest, ?_⟩
  simp only [writtenSince, hwritten, Set.mem_ofPred_eq, List.mem_append, List.mem_singleton]
  rcases hcontent with hchanged | hcontent
  · exact .inl (.inl (FileSystem.key_congr hcurrent other ▸ hchanged))
  · by_cases hkey : files.key other = files.key path
    · exact .inl (.inr hkey)
    · rw [FileSystem.key_congr hcurrent, FileSystem.key_congr hcurrent] at hkey
      exact .inr (by rw [(FileSystem.file?_of_write hwrite).2 other hkey, hcontent])

theorem leads_write (path : Text) (bytes : ByteArray) :
    Leads Follows (Work.write path bytes) before fun _ after =>
      after.files.exists? path = true :=
  Leads.write fun _ hwrite =>
    have ⟨hgrows, hthere⟩ := FileSystem.write_eq_ok hwrite
    ⟨⟨hgrows, .of_eq rfl rfl, List.prefix_append _ _,
      fun _ hcount => namesBut_of_write hcount hwrite⟩, hthere⟩

theorem leads_writeText (path text : Text) :
    Leads Follows (writeText path text) before fun _ _ => True :=
  Leads.writeText fun bytes => (leads_write path bytes).mono fun _ _ _ _ => trivial

theorem leads_findBelow (name : Text) (roots : List Setting) :
    Leads Reads (packer.findBelow name roots) before fun _ _ => True := by
  induction roots generalizing before with
  | nil => exact Leads.of_pure trivial
  | cons root rest ih =>
      unfold findBelow
      apply leads_current.bind
      intro current between _ _
      apply Leads.lift_bind
      intro root _
      apply (leads_exists? _).bind
      intro isThere between _ _
      split
      · exact Leads.of_pure trivial
      · exact ih

theorem leads_inputOf (element : Setting) :
    Leads Reads (packer.inputOf element) before fun _ _ => True := by
  unfold inputOf
  apply Leads.lift_bind
  rintro ⟨spec, depends⟩ -
  apply Leads.lift_bind
  intro names _
  apply Leads.lift_bind
  intro _ _
  have hpath : Leads Reads (packer.inputPath? ((Text.fields ':' spec).getLast?.getD [])) before
      fun _ _ => True := by
    unfold inputPath?
    split
    · exact Leads.of_throw _
    · exact leads_findBelow _ _
  apply hpath.bind
  intro path between _ _
  split
  · exact Leads.of_pure trivial
  · apply (leads_log _ _).bind
    exact fun _ _ _ _ => Leads.of_pure trivial

theorem leads_inputsOf (list : Setting) :
    Leads Reads (packer.inputsOf list) before fun _ _ => True := by
  unfold inputsOf
  extract_lets next
  have hnext (elements : List Setting) : Leads Reads (next elements) before fun _ _ => True := by
    unfold next
    apply (Leads.mapM fun element _ between _ => leads_inputOf element).bind
    exact fun _ _ _ _ => Leads.of_pure trivial
  split
  · rw [pure_bind]
    exact hnext _
  · split
    · exact Leads.of_throw _
    · rw [pure_bind]
      exact hnext _

theorem leads_timeOf (path : Text) : Leads Reads (timeOf path) before fun _ _ => True := by
  unfold timeOf
  apply Leads.get_bind
  simp only
  split
  · exact Leads.of_lift fun _ _ => trivial
  · exact Leads.of_pure trivial

theorem leads_anyChangedAfter (inputs : List Input) (time : Int) :
    Leads Reads (anyChangedAfter inputs time) before fun _ _ => True :=
  Leads.get_bind (Leads.of_lift fun _ _ => trivial)

end Writing

/-! ## Assets -/

/-- Whether the text of a written style sheet is what its inputs become, each reference that
got another text naming its file by a name that it has. -/
def Names (packer : Packer) (hasName : Text → Text → Prop) (sheet : Sheet) : Prop :=
  ∃ drafts, sheet.text = Text.joined (separatorText (packer.separatorOf sheet.name)) drafts ∧
    List.Forall₂ (packer.Shows sheet.files hasName) sheet.inputs drafts

theorem Names.imp
    {hasName hasName' : Text → Text → Prop} {sheet : Sheet} (h : packer.Names hasName sheet)
    (himp : ∀ path name, hasName path name → hasName' path name) :
    packer.Names hasName' sheet := by
  obtain ⟨drafts, htext, hshows⟩ := h
  exact ⟨drafts, htext, hshows.imp fun _ _ h => h.imp himp⟩

/-- Where a file is copied to. -/
def target (packer : Packer) (current name : Text) : Except Failure Text :=
  packer.location.toText.map fun location =>
    Path.join (packer.fromBase current location) name

/-- Whether there is a file beside the packed assets under a name. -/
def IsStored (packer : Packer) (files : FileSystem) (name : Text) : Prop :=
  ∃ target, packer.target files.current name = .ok target ∧ files.exists? target = true

theorem IsStored.of_grows
    {files files' : FileSystem} {name : Text} (hgrows : files.Grows files')
    (h : packer.IsStored files name) : packer.IsStored files' name := by
  obtain ⟨target, htarget, hthere⟩ := h
  exact ⟨target, hgrows.current ▸ htarget, hgrows.present target hthere⟩

section Copying

variable {before : Workspace}

/-- Whether a file is there under the name that a workspace holds of it. -/
def IsCopied (packer : Packer) (path : Text) (workspace : Workspace) : Prop :=
  ∃ name, workspace.names.find? path = some name ∧ packer.IsStored workspace.files name

/-- What holds of reading, and where nothing is under the name of a file after its content of
making the directory for a copy and of writing it there, holds of copying the file. -/
theorem leads_copyFile_of
    {R : Workspace → Workspace → Prop} [IsPreorder Workspace R] {post : Workspace → Prop}
    {path : Text} (hreads : ∀ {first second}, Reads first second → R first second)
    (hthere : ∀ name target named, before.Reads named → named.names.find? path = some name →
      packer.target named.files.current name = .ok target →
        named.files.exists? target = true → post named)
    (hcopy : ∀ name target logged, before.Reads logged → logged.names.find? path = some name →
      packer.target logged.files.current name = .ok target →
      logged.files.exists? target = false →
        let made := { logged with files := logged.files.makeDirectories (Path.dirname target) }
        R logged made ∧ ∀ bytes, made.files.read path = .ok bytes →
          Leads R (Work.write target bytes) made fun _ => post) :
    Leads R (packer.copyFile path) before fun _ => post := by
  unfold copyFile
  apply leads_current.bind
  rintro current between - ⟨rfl, hsame⟩
  obtain rfl := hsame.symm
  apply Leads.lift_bind
  intro location hlocation
  have hdigest : Leads Reads (Work.digestName path) before fun name named =>
      before.Reads named ∧ named.names.find? path = some name :=
    (leads_digestName path).mono fun _ _ hnamed hname => ⟨hnamed, hname⟩
  apply (hdigest.weaken (S := R) hreads).bind
  rintro name named - ⟨hnamed, hname⟩
  have htarget : packer.target named.files.current name =
      .ok (Path.join (packer.fromBase before.files.current location) name) := by
    rw [hnamed.files, target, hlocation]
    rfl
  generalize Path.join (packer.fromBase before.files.current location) name = target at htarget ⊢
  apply (leads_exists? _).bind
  rintro isThere _ - ⟨rfl, hsame⟩
  obtain rfl := hsame.symm
  split
  · rename_i hisThere
    exact Leads.of_pure (hthere name target named hnamed hname htarget hisThere)
  · rename_i hmissing
    have hlog : Leads Reads
        (log .debug ("Copying ".text ++ path ++ " -> ".text ++ target)) named
        fun _ logged => named.Reads logged :=
      (leads_log _ _).mono fun _ _ hlogged _ => hlogged
    apply (hlog.weaken (S := R) hreads).bind
    rintro _ logged - hlogged
    obtain ⟨hmade, hwrite⟩ := hcopy name target logged (trans_of Reads hnamed hlogged)
      (hlogged.learns.names path name hname) (hlogged.files ▸ htarget)
      (hlogged.files ▸ Bool.eq_false_iff.mpr hmissing)
    have hmake : Leads R (makeDirectories (Path.dirname target)) logged fun _ made =>
        made = { logged with files := logged.files.makeDirectories (Path.dirname target) } :=
      Leads.of_modify hmade rfl
    apply hmake.bind
    rintro _ _ - rfl
    apply (leads_read path).bind
    rintro bytes _ - ⟨hread, rfl⟩
    exact hwrite bytes hread

/-- What holds of copying each file that was found holds of copying them all. -/
theorem leads_copyFound_of
    {R : Workspace → Workspace → Prop} [IsPreorder Workspace R]
    (hcopy : packer.options.mode = .contentDerived → ∀ path ∈ before.assets,
      ∀ between, R before between → Leads R (packer.copyFile path) between fun _ _ => True) :
    Leads R packer.copyFound before fun _ _ => True := by
  unfold copyFound
  split
  · rename_i hmode
    apply Leads.get_bind
    have hall : Leads R (before.assets.forM packer.copyFile) before
        fun _ _ => ∀ path ∈ before.assets, True :=
      Leads.forM (fun _ _ _ _ _ => trivial) (hcopy hmode)
    exact hall.mono fun _ _ _ _ => trivial
  · exact Leads.of_pure trivial

theorem leads_copyFile (path : Text) :
    Leads Follows (packer.copyFile path) before fun _ after => packer.IsCopied path after := by
  refine leads_copyFile_of Reads.follows (fun name target named _ hname htarget hthere =>
    ⟨name, hname, target, htarget, hthere⟩) fun name target logged _ hname htarget _ => ?_
  have hmade : Follows logged
      { logged with files := logged.files.makeDirectories (Path.dirname target) } :=
    (leads_makeDirectories _ _ _ rfl).1
  refine ⟨hmade, fun bytes _ => (leads_write target bytes).mono fun _ after hafter hthere => ?_⟩
  have hfollows := trans_of Follows hmade hafter
  exact ⟨name, hfollows.learns.names path name hname, target,
    hfollows.files.current ▸ htarget, hthere⟩

theorem leads_copyFound (hmode : packer.options.mode = .contentDerived) :
    Leads Follows packer.copyFound before fun _ after =>
      ∀ path ∈ before.assets, packer.IsCopied path after := by
  unfold copyFound
  rw [if_pos hmode]
  apply Leads.get_bind
  apply Leads.forM
  · rintro path u v hfollows ⟨name, hname, hstored⟩
    exact ⟨name, hfollows.learns.names path name hname, hstored.of_grows hfollows.files⟩
  · exact fun path _ between _ => leads_copyFile path

end Copying

section Packing

variable {before : Workspace} (hmode : packer.options.mode = .contentDerived)
include hmode

theorem leads_writeSheet (name : Text) (inputs : List Input) (path : Text) :
    Leads Follows (packer.writeSheet name inputs path) before fun sheet after =>
      sheet.name = name ∧ packer.Names (FoundAs after) sheet := by
  unfold writeSheet
  apply (leads_makeDirectories _).bind
  intro _ between _ _
  apply Leads.get_bind
  apply ((leads_build hmode name inputs path).weaken (S := Follows) Reads.follows).bind
  rintro ⟨text, map⟩ built hbuilt hnames
  have hsheet {after : Workspace} (hafter : Follows built after) :
      packer.Names (FoundAs after) ⟨name, path, between.files, inputs, text⟩ := by
    have hbuilt : packer.Names (FoundAs built) ⟨name, path, between.files, inputs, text⟩ := hnames
    exact hbuilt.imp fun _ _ => FoundAs.of_learns hafter.learns
  simp only
  split
  · apply (leads_writeText _ _).bind
    exact fun _ after hafter _ => Leads.of_pure ⟨rfl, hsheet hafter⟩
  · apply Leads.lift_bind
    intro printed _
    apply (leads_writeText _ _).bind
    intro _ first hfirst _
    apply (leads_writeText _ _).bind
    intro _ second hsecond _
    have hafter : Follows built second := trans_of Follows hfirst hsecond
    exact Leads.of_pure ⟨rfl, hsheet hafter⟩

theorem leads_packSheet (force : Bool) (name : Text) (inputs : List Input) :
    Leads Follows (packer.packSheet force name inputs) before fun sheet? after =>
      (∀ sheet, sheet? = some sheet → sheet.name = name ∧ packer.Names (FoundAs after) sheet) ∧
        (force = true → sheet? ≠ none) := by
  have hwrite (path : Text) (between : Workspace) :
      Leads Follows (do return some (← packer.writeSheet name inputs path)) between
        fun sheet? after =>
          (∀ sheet, sheet? = some sheet →
            sheet.name = name ∧ packer.Names (FoundAs after) sheet) ∧
          (force = true → sheet? ≠ none) := by
    apply (leads_writeSheet hmode name inputs path).bind
    intro sheet after _ hsheet
    refine Leads.of_pure ⟨?_, by simp⟩
    rintro other hother
    exact Option.some.inj hother ▸ hsheet
  unfold packSheet
  apply leads_current.bind
  intro current between _ _
  apply Leads.lift_bind
  intro path _
  apply ((leads_timeOf path).weaken (S := Follows) Reads.follows).bind
  intro time between _ _
  split
  · exact hwrite path between
  · rename_i hneeded
    apply ((leads_anyChangedAfter inputs time).weaken (S := Follows) Reads.follows).bind
    intro isChanged between _ _
    split
    · exact hwrite path between
    · refine Leads.of_pure ⟨by simp, ?_⟩
      rintro rfl
      simp at hneeded

theorem leads_packEntry (asset : Option Text) (force : Bool) (entry : Setting × Setting) :
    Leads Follows (packer.packEntry asset force entry) before fun sheet? after =>
      (∀ sheet, sheet? = some sheet →
        .text sheet.name = entry.1 ∧ packer.Names (FoundAs after) sheet) ∧
        (force = true → isAsked asset entry.1 = true → sheet? ≠ none) := by
  unfold packEntry
  apply ((leads_inputsOf entry.2).weaken (S := Follows) Reads.follows).bind
  intro inputs between _ _
  split
  · apply Leads.lift_bind
    intro name hname
    have hentry : entry.1 = .text name := by
      unfold fileName at hname
      split at hname
      · rename_i hentry
        rw [hentry, Except.ok.inj hname]
      · simp at hname
    refine (leads_packSheet hmode force name inputs).mono ?_
    rintro sheet? after - ⟨hsheet, hforce⟩
    refine ⟨?_, fun hforced _ => hforce hforced⟩
    rintro sheet rfl
    obtain ⟨rfl, hnames⟩ := hsheet sheet rfl
    exact ⟨hentry.symm, hnames⟩
  · rename_i hasked
    exact Leads.of_pure ⟨by simp, fun _ h => absurd h hasked⟩

omit hmode in
theorem map_name_of_forall_some
    {entries : Setting.Members} {sheets : List (Option Sheet)}
    (h : List.Forall₂ (fun entry (sheet? : Option Sheet) =>
      ∃ sheet, sheet? = some sheet ∧ Setting.text sheet.name = entry.1) entries sheets) :
    sheets.reduceOption.map (fun sheet => Setting.text sheet.name) = entries.map Prod.fst := by
  induction h with
  | nil => rfl
  | cons hentry _ ih =>
      obtain ⟨sheet, rfl, hname⟩ := hentry
      rw [List.reduceOption_cons_of_some, List.map_cons, List.map_cons, ih, hname]

/-- What a pack that ends normally wrote names files that it found, all of which are stored. -/
theorem leads_packSheets (asset : Option Text) (force : Bool)
    (hdigests : before.NamesDigests) :
    Leads Follows
      (do
        let sheets ← (← Work.lift packer.entries).mapM (packer.packEntry asset force)
        packer.copyFound
        return sheets.reduceOption) before fun sheets after =>
      (∀ sheet ∈ sheets, packer.Names (fun path name =>
        (∃ bytes, name = digestName bytes path) ∧ packer.IsStored after.files name) sheet) ∧
      (force = true → ∀ entries, packer.entries = .ok entries →
        (∀ entry ∈ entries, isAsked asset entry.1 = true) →
          sheets.map (fun sheet => Setting.text sheet.name) = entries.map Prod.fst) := by
  apply Leads.lift_bind
  intro entries hentries
  apply (Leads.mapM fun entry _ between _ => leads_packEntry hmode asset force entry).bind
  intro sheets packed hpacked hsheets
  apply (leads_copyFound hmode).bind
  intro _ copied hcopied hstored
  refine Leads.of_pure ⟨?_, ?_⟩
  · intro sheet hsheet
    obtain ⟨i, hi⟩ := List.get_of_mem (List.reduceOption_mem_iff.mp hsheet)
    have hindex : i < entries.length := by
      rw [hsheets.length_eq]
      exact i.2
    obtain ⟨_, after, -, -, hentry, hafter⟩ := hsheets.get hindex i.2
    refine (hentry.1 sheet hi).2.imp ?_
    rintro path name ⟨hpath, hname⟩
    obtain ⟨name', hname', hthere⟩ := hstored path (hafter.learns.assets hpath)
    have hheld := hcopied.learns.names path name (hafter.learns.names path name hname)
    obtain rfl : name' = name := Option.some.inj (hname'.symm.trans hheld)
    have hlearned := (hpacked.learns.trans hcopied.learns).digests hdigests
    exact ⟨hlearned path name' hname', hthere⟩
  · intro hforce entries' hentries' hasked
    obtain rfl : entries = entries' := Except.ok.inj (hentries.symm.trans hentries')
    refine map_name_of_forall_some ?_
    refine List.forall₂_iff_zip.mpr ⟨hsheets.length_eq, ?_⟩
    intro entry sheet? hzip
    obtain ⟨_, _, -, -, ⟨hnamed, hwritten⟩, -⟩ := List.forall₂_zip hsheets hzip
    have hsome := hwritten hforce (hasked entry (List.of_mem_zip hzip).1)
    obtain ⟨sheet, rfl⟩ := Option.ne_none_iff_exists'.mp hsome
    exact ⟨sheet, rfl, (hnamed sheet rfl).1⟩

end Packing

/-! ## Histories -/

/-- What can happen to a workspace: a pack, which may fail, a file that is saved, or a file
that is deleted, but none of those beside the packed assets. -/
inductive Step (packer : Packer) : Workspace → Workspace → Prop
  | pack {before after : Workspace} {result : Except Failure Unit} (asset : Option Text)
      (force : Bool) (hruns : Runs (packer.pack asset force) before result after) :
      Step packer before after
  | save (workspace : Workspace) (path : Text) (file : File) :
      Step packer workspace { workspace with files := workspace.files.place path file }
  | delete (workspace : Workspace) (path : Text)
      (houtside : ∀ bytes file target,
        packer.target workspace.files.current (digestName bytes file) = .ok target →
          workspace.files.key path ≠ workspace.files.key target) :
      Step packer workspace { workspace with files := workspace.files.remove path }

/-- What a pack forgets at its start. -/
def forgotten (workspace : Workspace) : Workspace :=
  { workspace with resolutions := .empty, names := .empty, assets := [] }

theorem namesDigests_forgotten (workspace : Workspace) :
    (forgotten workspace).NamesDigests := by
  intro path name hname
  simp [forgotten, Cache.find?, Cache.empty] at hname

theorem runs_packSheets_of_pack
    {asset : Option Text} {force : Bool} {before after : Workspace} {result : Except Failure Unit}
    (hruns : Runs (packer.pack asset force) before result after) :
    ∃ sheets, Runs (packer.packSheets asset force) before sheets after ∧
      result = sheets.map fun _ => ⟨⟩ := by
  rw [pack_eq, map_eq_pure_bind] at hruns
  rcases runs_bind_cases hruns with ⟨sheets, _, hsheets, hpure⟩ | ⟨error, rfl, hfailed⟩
  · obtain ⟨rfl, rfl⟩ := Prod.mk.inj hpure
    exact ⟨.ok sheets, hsheets, rfl⟩
  · exact ⟨.error error, hfailed, rfl⟩

section Histories

variable (hmode : packer.options.mode = .contentDerived)
include hmode

theorem grows_of_pack
    {asset : Option Text} {force : Bool} {before after : Workspace} {result : Except Failure Unit}
    (hruns : Runs (packer.pack asset force) before result after) :
    before.files.Grows after.files := by
  obtain ⟨sheets, hsheets, -⟩ := runs_packSheets_of_pack hruns
  exact (leads_packSheets hmode asset force (namesDigests_forgotten before) _ _ hsheets).1.files

theorem isStored_of_step
    {before after : Workspace} (hstep : packer.Step before after) {bytes : ByteArray} {path : Text}
    (hstored : packer.IsStored before.files (digestName bytes path)) :
    packer.IsStored after.files (digestName bytes path) := by
  cases hstep with
  | pack asset force hruns => exact hstored.of_grows (grows_of_pack hmode hruns)
  | save path file => exact hstored.of_grows (FileSystem.grows_place _ path file)
  | delete path houtside =>
      obtain ⟨target, htarget, hthere⟩ := hstored
      exact ⟨target, htarget, FileSystem.exists?_remove (houtside _ _ _ htarget) hthere⟩

theorem isStored_of_steps
    {before after : Workspace} (hsteps : Relation.ReflTransGen packer.Step before after)
    {bytes : ByteArray} {path : Text}
    (hstored : packer.IsStored before.files (digestName bytes path)) :
    packer.IsStored after.files (digestName bytes path) := by
  induction hsteps with
  | refl => exact hstored
  | tail _ hstep ih => exact isStored_of_step hmode hstep ih

/-- A pack that ends normally leaves no reference of what it wrote without its file, and none
ever gets without it: whatever is packed, saved or deleted elsewhere afterwards, each reference
of each of its style sheets is as it was written or names its file by a name after a content
under which there is a file beside the packed assets.  If it is forced, it writes all assets
that are asked for. -/
theorem stored_of_pack
    {asset : Option Text} {force : Bool} {before packed : Workspace}
    (hpack : Runs (packer.pack asset force) before (.ok ⟨⟩) packed) :
    ∃ sheets, Runs (packer.packSheets asset force) before (.ok sheets) packed ∧
      (force = true → ∀ entries, packer.entries = .ok entries →
        (∀ entry ∈ entries, isAsked asset entry.1 = true) →
          sheets.map (fun sheet => Setting.text sheet.name) = entries.map Prod.fst) ∧
      ∀ later, Relation.ReflTransGen packer.Step packed later → ∀ sheet ∈ sheets,
        packer.Names (fun path name =>
          (∃ bytes, name = digestName bytes path) ∧ packer.IsStored later.files name) sheet := by
  obtain ⟨result, hruns, hresult⟩ := runs_packSheets_of_pack hpack
  cases result with
  | error error => simp [Except.map] at hresult
  | ok sheets =>
      obtain ⟨-, hvalue⟩ :=
        leads_packSheets hmode asset force (namesDigests_forgotten before) _ _ hruns
      obtain ⟨hnames, hforced⟩ := hvalue sheets rfl
      refine ⟨sheets, hruns, hforced, ?_⟩
      intro later hlater sheet hsheet
      refine (hnames sheet hsheet).imp ?_
      rintro path name ⟨⟨bytes, rfl⟩, hstored⟩
      exact ⟨⟨bytes, rfl⟩, isStored_of_steps hmode hlater hstored⟩

end Histories

/-- A packer of assets of one input each, from the directory `src` to the directory `out`,
without source maps. -/
def ofNames (names : List Text) : Packer where
  tools := .ofTable []
  base := "/p".text
  location := .text "out".text
  search := .list none [.text "src".text]
  processors := Processor.registrations
  defaults := standardDefaults
  separators := standardSeparators
  assets := .table none (names.map fun name => (.text name, .text name))
  options := { mode := .contentDerived, sourceMap := false }

/-- The style sheets `a.css`, which names an empty file, and `b.css` with the given bytes. -/
def twoSheets (bytes : ByteArray) : FileSystem :=
  (((FileSystem.empty "/p".text).place "/p/src/i".text ⟨.empty, 1, true⟩).place
    "/p/src/a.css".text ⟨"url(i)".toUTF8, 1, true⟩).place "/p/src/b.css".text ⟨bytes, 1, true⟩

theorem runs_of_isOk
    {action : Work Unit} {before : Workspace} (h : (action.run.run before).1.isOk = true) :
    Runs action before (.ok ⟨⟩) (action.run.run before).2 := by
  unfold Runs
  cases hrun : action.run.run before with
  | mk result after =>
      rw [hrun] at h
      cases result with
      | ok value => rfl
      | error error => simp [Except.isOk, Except.toBool] at h

theorem stored_of_forced_pack :
    ∃ (packed : Workspace) (sheets : List Sheet),
      Runs ((ofNames ["a.css".text]).pack none true) { files := twoSheets .empty } (.ok ⟨⟩)
        packed ∧
      sheets.map (·.name) = ["a.css".text] ∧
      ∀ later, Relation.ReflTransGen (ofNames ["a.css".text]).Step packed later →
        ∀ sheet ∈ sheets, (ofNames ["a.css".text]).Names (fun path name =>
          (∃ bytes, name = digestName bytes path) ∧
            (ofNames ["a.css".text]).IsStored later.files name) sheet := by
  have hok : (((ofNames ["a.css".text]).pack none true).run.run
      { files := twoSheets .empty }).1.isOk = true := by
    decide +kernel
  obtain ⟨sheets, -, hforced, hstored⟩ := stored_of_pack rfl (runs_of_isOk hok)
  have hnames := hforced rfl [(.text "a.css".text, .text "a.css".text)] rfl (fun _ _ => rfl)
  refine ⟨_, sheets, runs_of_isOk hok, ?_, hstored⟩
  have hinjective : Function.Injective Setting.text := fun _ _ h => Setting.text.inj h
  refine List.map_injective_iff.mpr hinjective ?_
  rw [List.map_map]
  exact hnames

/-- A pack that is stopped at its second style sheet leaves the first with a reference to a
file that is not there, and the next pack, which ends normally, passes the first over. -/
theorem exists_dangling :
    ∃ (stopped packed : Workspace) (error : Failure),
      Runs ((ofNames ["a.css".text, "b.css".text]).pack none false)
        { files := twoSheets ⟨#[0xFF]⟩ } (.error error) stopped ∧
      Runs ((ofNames ["a.css".text, "b.css".text]).pack none false)
        { stopped with files := stopped.files.place "/p/src/b.css".text ⟨.empty, 2000, true⟩ }
        (.ok ⟨⟩) packed ∧
      (packed.files.file? "/p/out/a.css".text).map (·.bytes) =
        Utf8.encode? ("url(".text ++ digestName .empty "i".text ++ ")".text) ∧
      packed.files.exists? ("/p/out/".text ++ digestName .empty "i".text) = false := by
  let packer : Packer := ofNames ["a.css".text, "b.css".text]
  let stopped : Workspace :=
    ((packer.pack none false).run.run { files := twoSheets ⟨#[0xFF]⟩ }).2
  let saved : Workspace :=
    { stopped with files := stopped.files.place "/p/src/b.css".text ⟨.empty, 2000, true⟩ }
  have hstopped :
      ((packer.pack none false).run.run { files := twoSheets ⟨#[0xFF]⟩ }).1.isOk = false := by
    decide +kernel
  have hok : ((packer.pack none false).run.run saved).1.isOk = true := by decide +kernel
  cases hrun : ((packer.pack none false).run.run { files := twoSheets ⟨#[0xFF]⟩ }).1 with
  | ok value => simp [hrun, Except.isOk, Except.toBool] at hstopped
  | error error =>
      refine ⟨stopped, ((packer.pack none false).run.run saved).2, error, ?_, runs_of_isOk hok,
        by decide +kernel, by decide +kernel⟩
      exact Prod.ext hrun rfl

end Packer

end UrlRebase
