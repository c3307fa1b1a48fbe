import UrlRebase.Proofs.AgedFiles
import UrlRebase.Proofs.AskedAssets
import UrlRebase.Proofs.ChangedInputs
import UrlRebase.Proofs.WatchedPaths

/-!
# Assets that stand

When a pack has come through, each asset that was asked for was written since, or was there and
none of its inputs newer when its turn came.  What is written has a later time than everything
before.  So as long as the pack itself adds nothing to what is watched for an asset, the asset is
not out of date afterwards, unless a directory that was made now stands for one of its inputs.
-/

namespace UrlRebase

open Work Workspace FileSystem

namespace Packer

variable {packer : Packer} {asset : Option Text} {force : Bool} {entry : Setting × Setting}

/-! ## Turns that pass an asset over -/

/-- Whether the turn of an asset passes it over: it is there, and none of the inputs that the
files tell is newer. -/
structure IsPassed (packer : Packer) (files : FileSystem) (entry : Setting × Setting)
    (name path : Text) (inputs : List Input) (time : Int) : Prop where
  told : packer.inputsOn files entry.2 = .ok inputs
  named : fileName entry.1 = .ok name
  placed : packer.outputPath files.current name = .ok path
  changed : changeTime files path = .ok time
  there : time ≠ 0
  older : Input.anyIsNewer files time inputs = .ok false

section Turns

variable {R : Workspace → Workspace → Prop} [IsPreorder Workspace R] {turn : Workspace}

theorem leads_changeTime (path : Text) :
    Leads R (timeOf path) turn fun time after =>
      changeTime turn.files path = .ok time ∧ after = turn := by
  intro result after hruns
  obtain ⟨rfl, rfl⟩ := Prod.mk.inj (hruns.symm.trans (runs_timeOf path turn))
  exact ⟨refl _, fun time htime => ⟨htime, rfl⟩⟩

theorem leads_anyIsNewer (inputs : List Input) (time : Int) :
    Leads R (anyChangedAfter inputs time) turn fun isNewer after =>
      Input.anyIsNewer turn.files time inputs = .ok isNewer ∧ after = turn :=
  Leads.get_bind (Leads.of_lift fun _ hnewer => ⟨hnewer, rfl⟩)

/-- A turn lists the inputs of its asset, and then the asset is not asked for, or it is due and
written, or it is passed over. -/
theorem leads_takeTurn_of_cases
    {post : Workspace → Prop} (hlogs : ∀ {first second}, Logs first second → R first second)
    (hunasked : isAsked asset entry.1 = false → ∀ listed, Logs turn listed → post listed)
    (hdue : ∀ name path inputs listed,
      packer.IsDue asset force turn entry name path inputs listed → Logs turn listed →
        Leads R (packer.write name inputs path) listed fun _ => post)
    (hpassed : ∀ name path inputs time listed,
      packer.IsPassed turn.files entry name path inputs time → Logs turn listed → post listed) :
    Leads R (packer.takeTurn asset force entry) turn fun _ => post := by
  unfold takeTurn
  have hlist : Leads R (packer.inputsOf entry.2) turn fun inputs listed =>
      Runs (packer.inputsOf entry.2) turn (.ok inputs) listed ∧
        packer.inputsOn turn.files entry.2 = .ok inputs ∧ Logs turn listed := by
    intro result listed hruns
    obtain ⟨rfl, hlog⟩ := (tells_inputsOf entry.2).eq_of_runs hruns
    exact ⟨hlogs hlog, fun inputs hinputs => ⟨hinputs ▸ hruns, hinputs, hlog⟩⟩
  apply hlist.bind
  rintro inputs listed - ⟨hruns, hinputs, hlog⟩
  have hfiles : listed.files = turn.files := by
    obtain ⟨log, rfl⟩ := hlog
    rfl
  split
  · rename_i hasked
    apply Leads.lift_bind
    intro name hname
    unfold packInputs
    apply leads_current.bind
    rintro current same - ⟨rfl, hsame⟩
    obtain rfl := hsame.symm
    apply Leads.lift_bind
    intro path hpath
    rw [hfiles] at hpath
    apply (leads_changeTime path).bind
    rintro time same - ⟨htime, hsame⟩
    obtain rfl := hsame.symm
    rw [hfiles] at htime
    have hwrite (hneeded : force = true ∨ time = 0 ∨
        Input.anyIsNewer turn.files time inputs = .ok true) :
        Leads R (packer.write name inputs path) listed fun _ => post :=
      hdue name path inputs listed ⟨hruns, hasked, hname, hpath, time, htime, hneeded⟩ hlog
    split
    · rename_i hneeded
      rw [Bool.or_eq_true, decide_eq_true_iff] at hneeded
      exact hwrite (hneeded.imp_right .inl)
    · rename_i hneeded
      rw [Bool.or_eq_true, decide_eq_true_iff, not_or] at hneeded
      apply (leads_anyIsNewer inputs time).bind
      rintro isNewer same - ⟨hnewer, hsame⟩
      obtain rfl := hsame.symm
      rw [hfiles] at hnewer
      cases isNewer with
      | true => exact hwrite (.inr (.inr hnewer))
      | false =>
          exact Leads.of_pure (hpassed name path inputs time listed
            ⟨hinputs, hname, hpath, htime, hneeded.2, hnewer⟩ hlog)
  · rename_i hasked
    exact Leads.of_pure (hunasked (Bool.not_eq_true _ |>.mp hasked) listed hlog)

end Turns

/-! ## Assets that stand -/

/-- Whether a packed file was written after the clock of a start, or was there, and none of the
inputs newer, at a turn since then. -/
def StandsSince (packer : Packer) (start now : Workspace) (entry : Setting × Setting)
    (file : File) : Prop :=
  start.files.clock < file.time ∨
    file.time ≠ 0 ∧ ∃ turn inputs, Ages start turn ∧ Ages turn now ∧
      packer.inputsOn turn.files entry.2 = .ok inputs ∧
      Input.anyIsNewer turn.files file.time inputs = .ok false

/-- Whether an asset, if it is asked for, has a file that stands since the start. -/
structure Stands (packer : Packer) (asset : Option Text) (start : Workspace)
    (entry : Setting × Setting) (now : Workspace) : Prop where
  ages : Ages start now
  stands : isAsked asset entry.1 = true → ∃ name path file, fileName entry.1 = .ok name ∧
    packer.outputPath now.files.current name = .ok path ∧ now.files.file? path = some file ∧
    packer.StandsSince start now entry file

theorem Logs.ages {before after : Workspace} (h : Logs before after) : Ages before after := by
  obtain ⟨log, rfl⟩ := h
  exact ⟨.refl _, le_rfl, List.prefix_rfl, fun _ => .inl rfl⟩

/-- An asset stands until it is written again, and then it stands as well. -/
theorem Stands.of_ages {start now later : Workspace} (h : packer.Stands asset start entry now)
    (hlater : Ages now later) : packer.Stands asset start entry later where
  ages := trans_of Ages h.ages hlater
  stands := by
    intro hasked
    obtain ⟨name, path, file, hname, hpath, hfile, hstands⟩ := h.stands hasked
    rw [← hlater.files.current] at hpath
    rcases hlater.file path with hsame | ⟨-, other, hother, htime⟩
    · refine ⟨name, path, file, hname, hpath, hsame.trans hfile, hstands.imp_right ?_⟩
      rintro ⟨hthere, turn, inputs, hturn, hnow, htold⟩
      exact ⟨hthere, turn, inputs, hturn, trans_of Ages hnow hlater, htold⟩
    · exact ⟨name, path, other, hname, hpath, hother, .inl (h.ages.clock.trans_lt htime)⟩

theorem exists_file_of_changeTime {files : FileSystem} {path : Text} {time : Int}
    (h : changeTime files path = .ok time) (hthere : time ≠ 0) :
    ∃ file, files.file? path = some file ∧ file.time = time := by
  unfold changeTime FileSystem.timeOf at h
  split at h
  · split at h
    · exact absurd (Except.ok.inj h).symm hthere
    · split at h
      · rename_i file hfile
        exact ⟨file, hfile, Except.ok.inj h⟩
      · cases h
  · exact absurd (Except.ok.inj h).symm hthere

/-- Behind its turn an asset stands. -/
theorem stands_takeTurn {start turn : Workspace} (hturn : Ages start turn) :
    Leads Ages (packer.takeTurn asset force entry) turn fun _ after =>
      packer.Stands asset start entry after := by
  refine leads_takeTurn_of_cases Logs.ages (fun hnot listed hlog => ?_)
    (fun name path inputs listed hdue hlog => ?_) fun name path inputs time listed hpassed hlog => ?_
  · refine ⟨trans_of Ages hturn (Logs.ages hlog), fun hasked => ?_⟩
    rw [hnot] at hasked
    cases hasked
  · have hlisted := trans_of Ages hturn (Logs.ages hlog)
    refine (ages_writeAsset name inputs path).mono fun _ after hafter ⟨file, hfile, htime⟩ => ?_
    refine ⟨trans_of Ages hlisted hafter, fun _ => ⟨name, path, file, hdue.named, ?_, hfile,
      .inl (hlisted.clock.trans_lt htime)⟩⟩
    rw [hafter.files.current, (Logs.ages hlog).files.current]
    exact hdue.placed
  · have hsame := Logs.ages hlog
    obtain ⟨log, rfl⟩ := hlog
    obtain ⟨file, hfile, rfl⟩ := exists_file_of_changeTime hpassed.changed hpassed.there
    exact ⟨trans_of Ages hturn hsame, fun _ => ⟨name, path, file, hpassed.named, hpassed.placed,
      hfile, .inr ⟨hpassed.there, turn, inputs, hturn, hsame, hpassed.told, hpassed.older⟩⟩⟩

theorem stands_of_pack
    {entries : List (Setting × Setting)} {before packed : Workspace}
    (hentries : packer.entries = .ok entries)
    (hpack : Runs (packer.pack asset force) before (.ok ⟨⟩) packed) :
    ∀ entry ∈ entries, packer.Stands asset before entry packed := by
  have hforgotten : Ages before (forgotten before) :=
    ⟨.refl _, le_rfl, List.prefix_rfl, fun _ => .inl rfl⟩
  rw [pack_eq_turns] at hpack
  obtain ⟨_, _, hforget, hpack⟩ := exists_of_bind hpack
  obtain ⟨-, rfl⟩ := Prod.mk.inj hforget
  obtain ⟨listed, hlisted, hpack⟩ := exists_of_lift_bind hpack
  obtain rfl := Except.ok.inj (hentries.symm.trans hlisted)
  obtain ⟨_, turned, hturns, hcopied⟩ := exists_of_bind hpack
  have hall : Leads Ages (entries.forM (packer.takeTurn asset force)) (forgotten before)
      fun _ after => ∀ entry ∈ entries, packer.Stands asset before entry after :=
    Leads.forM (fun entry _ _ hlater h => h.of_ages hlater) fun entry _ between hbetween =>
      stands_takeTurn (trans_of Ages hforgotten hbetween)
  have hstands := (hall _ _ hturns).2 _ rfl
  have hafter := (ages_copyFound _ _ hcopied).1
  exact fun entry hentry => (hstands entry hentry).of_ages hafter

end Packer

/-! ## Paths that are left alone -/

/-- What is true of every value that a computation gives can be told from its result. -/
instance decidableForallOk {ε α : Type} {P : α → Prop} [∀ a, Decidable (P a)] :
    (result : Except ε α) → Decidable (∀ a, result = .ok a → P a)
  | .ok a => decidable_of_iff (P a) ⟨fun h _ ha => Except.ok.inj ha ▸ h, fun h => h a rfl⟩
  | .error _ => .isTrue fun _ h => by cases h

/-- The paths that are watched, without the faults among them. -/
def Input.toldPaths (files : FileSystem) (input : Input) : List Text :=
  (input.watchedPaths files).filterMap Except.toOption

theorem Input.mem_toldPaths {files : FileSystem} {input : Input} {path : Text} :
    path ∈ input.toldPaths files ↔ .ok path ∈ input.watchedPaths files := by
  rw [toldPaths, List.mem_filterMap]
  constructor
  · rintro ⟨watched, hmem, htold⟩
    cases watched with
    | ok other =>
        obtain rfl := Option.some.inj htold
        exact hmem
    | error error => cases htold
  · exact fun hmem => ⟨.ok path, hmem, rfl⟩

theorem Input.path_mem_toldPaths {files : FileSystem} (input : Input) :
    input.path ∈ input.toldPaths files :=
  Input.mem_toldPaths.mpr List.mem_cons_self

/-- Whether no path is a file and a directory at once. -/
def FileSystem.IsProper (files : FileSystem) : Prop :=
  ∀ path, files.isFile path = true → files.isDirectory path = false

namespace Workspace

variable {start now : Workspace} {path : Text}

/-- The time of a path that was not written to is what it was. -/
theorem Ages.timeOf_eq
    (h : Ages start now) (hproper : now.files.IsProper)
    (hpath : now.files.key path ∉ now.writtenSince start.written.length) {time time' : Int}
    (htime : start.files.timeOf path = .ok time) (htime' : now.files.timeOf path = .ok time') :
    time' = time := by
  have hsame : now.files.file? path = start.files.file? path :=
    (h.file path).resolve_right fun hwritten => hpath hwritten.1
  unfold FileSystem.timeOf at htime htime'
  cases hdirectory : now.files.isDirectory path with
  | true =>
      have hnone : now.files.file? path = none := by
        have hnot : ¬now.files.isFile path = true := fun hfile => by
          simp [hproper path hfile] at hdirectory
        simpa [FileSystem.isFile] using hnot
      rw [hsame] at hnone
      rw [hdirectory, if_pos rfl] at htime'
      rw [hnone] at htime
      split at htime
      · exact Except.ok.inj (htime'.symm.trans htime)
      · cases htime
  | false =>
      have hplain : start.files.isDirectory path = false := by
        cases hstart : start.files.isDirectory path with
        | false => rfl
        | true => simp [h.files.isDirectory hstart] at hdirectory
      rw [hdirectory, if_neg Bool.false_ne_true, hsame] at htime'
      rw [hplain, if_neg Bool.false_ne_true] at htime
      exact Except.ok.inj (htime'.symm.trans htime)

/-- Whether nothing that is watched for an input was written to, or is newer than the clock of
before. -/
structure SparesWatched (before after : Workspace) (input : Input) : Prop where
  unwritten : ∀ path ∈ input.toldPaths after.files,
    after.files.key path ∉ after.writtenSince before.written.length
  older : ∀ path ∈ input.toldPaths after.files, ∀ time,
    before.files.timeOf path = .ok time → time ≤ before.files.clock

instance (before after : Workspace) (input : Input) : Decidable (SparesWatched before after input) :=
  decidable_of_iff
    ((∀ path ∈ input.toldPaths after.files,
        (after.written.drop before.written.length).contains (after.files.key path) = false) ∧
      ∀ path ∈ input.toldPaths after.files, ∀ time,
        before.files.timeOf path = .ok time → time ≤ before.files.clock)
    ⟨fun ⟨hunwritten, holder⟩ => ⟨by simpa [writtenSince] using hunwritten, holder⟩,
      fun ⟨hunwritten, holder⟩ => ⟨by simpa [writtenSince] using hunwritten, holder⟩⟩

/-- Whether what is watched for an input is spared, and all of it was watched before. -/
structure LeavesAlone (before packed : Workspace) (input : Input) : Prop
    extends SparesWatched before packed input where
  watched : input.toldPaths packed.files ⊆ input.toldPaths before.files

instance (before packed : Workspace) (input : Input) : Decidable (LeavesAlone before packed input) :=
  decidable_of_iff
    (SparesWatched before packed input ∧
      input.toldPaths packed.files ⊆ input.toldPaths before.files)
    ⟨fun ⟨hspares, hwatched⟩ => ⟨hspares, hwatched⟩, fun ⟨hspares, hwatched⟩ => ⟨hspares, hwatched⟩⟩

/-- What was not there and was not written to is no file. -/
theorem Ages.file?_eq_none
    (h : Ages start now) (hpath : now.files.key path ∉ now.writtenSince start.written.length)
    (hmissing : ¬start.files.exists? path = true) : now.files.file? path = none := by
  rw [FileSystem.exists?, Bool.or_eq_true, not_or] at hmissing
  rw [(h.file path).resolve_right fun hwritten => hpath hwritten.1]
  exact Option.not_isSome_iff_eq_none.mp hmissing.1

/-- Nothing that is watched is newer than the clock before the pack. -/
theorem LeavesAlone.time_le
    {input : Input} (h : LeavesAlone start now input) (hages : Ages start now)
    (hproper : now.files.IsProper) (hclock : 0 ≤ start.files.clock)
    (hpath : path ∈ input.toldPaths now.files) {time : Int}
    (htime : now.files.timeOf path = .ok time) : time ≤ start.files.clock := by
  have hunwritten := h.unwritten path hpath
  cases hstart : start.files.timeOf path with
  | ok time' =>
      rw [hages.timeOf_eq hproper hunwritten hstart htime]
      exact h.older path hpath time' hstart
  | error error =>
      have hmissing : ¬∃ time, start.files.timeOf path = .ok time := by simp [hstart]
      rw [exists_timeOf_iff] at hmissing
      unfold FileSystem.timeOf at htime
      rw [hages.file?_eq_none hunwritten hmissing] at htime
      split at htime
      · exact Except.ok.inj htime ▸ hclock
      · cases htime

end Workspace

namespace Input

theorem exists_newer_of_anyNewer
    {files : FileSystem} {time : Int} {watched : List (Except Failure Text)}
    (h : anyNewer files time watched = .ok true) :
    ∃ path, .ok path ∈ watched ∧ files.IsNewerThan time path := by
  induction watched with
  | nil => cases h
  | cons first rest ih =>
      cases first with
      | error error => cases h
      | ok path =>
          unfold anyNewer at h
          split at h
          · cases h
          · rename_i changed hchanged
            split at h
            · rename_i hnewer
              exact ⟨path, List.mem_cons_self, changed, hchanged, hnewer⟩
            · obtain ⟨other, hother, hnewer⟩ := ih h
              exact ⟨other, List.mem_cons_of_mem _ hother, hnewer⟩

theorem exists_newer_of_anyIsNewer
    {files : FileSystem} {time : Int} {inputs : List Input}
    (h : anyIsNewer files time inputs = .ok true) :
    ∃ input ∈ inputs, ∃ path, .ok path ∈ input.watchedPaths files ∧
      files.IsNewerThan time path := by
  induction inputs with
  | nil => cases h
  | cons input rest ih =>
      obtain ⟨isNewer, hnewer, h⟩ := Except.bind_eq_ok.mp h
      cases isNewer with
      | true => exact ⟨input, List.mem_cons_self, exists_newer_of_anyNewer hnewer⟩
      | false =>
          obtain ⟨other, hother, hpath⟩ := ih h
          exact ⟨other, List.mem_cons_of_mem _ hother, hpath⟩

end Input

namespace Packer

variable {packer : Packer} {asset : Option Text} {force : Bool} {entry : Setting × Setting}

/-- An input that is found at a path that was there before was found there before. -/
theorem inputOn_of_widens
    {files files' : FileSystem} {element : Setting} {input : Input} (hwidens : files.Widens files')
    (hinput : packer.inputOn files' element = .ok (some input))
    (hthere : files.exists? input.path = true) :
    packer.inputOn files element = .ok (some input) := by
  obtain ⟨plan, hplan, hfound, -⟩ := exists_plan_of_inputOn hinput
  rw [← inputOn_eq fun other hother => ?_, hinput]
  obtain rfl := Except.ok.inj (hplan.symm.trans hother)
  refine foundPath_eq hwidens.current (fun path hpath => ?_) fun path hpath => ?_
  · exact hwidens.exists? (of_foundPath hpath).2
  · obtain rfl := Option.some.inj (Except.ok.inj (hpath.symm.trans hfound))
    exact hthere

/-- What is watched for an input now was watched at a turn, and has the time that it had then. -/
theorem time_le_of_anyIsNewer
    {start turn now : Workspace} {input : Input} {inputs : List Input} {path : Text}
    {limit time : Int} (h : LeavesAlone start now input) (hturn : Ages start turn)
    (hnow : Ages turn now) (hproper : now.files.IsProper) (hinput : input ∈ inputs)
    (holder : Input.anyIsNewer turn.files limit inputs = .ok false)
    (hpath : path ∈ input.toldPaths now.files) (htime : now.files.timeOf path = .ok time) :
    time ≤ limit := by
  have hwatched := hturn.files.watchedPaths (Input.mem_toldPaths.mp (h.watched hpath))
  obtain ⟨earlier, hearlier, hle⟩ := exists_time_of_anyIsNewer holder input hinput path hwatched
  have hunwritten : now.files.key path ∉ now.writtenSince turn.written.length := fun hwritten =>
    h.unwritten path hpath (mem_writtenSince_of_le hturn.written.length_le hwritten)
  rw [hnow.timeOf_eq hproper hunwritten hearlier htime]
  exact hle

/-- An input that is found where nothing was before, and no file was written since, is a
directory. -/
theorem isDirectory_of_missing
    {start now : Workspace} {input : Input} {element : Setting}
    (h : LeavesAlone start now input) (hages : Ages start now)
    (hinput : packer.inputOn now.files element = .ok (some input))
    (hmissing : ¬start.files.exists? input.path = true) :
    now.files.isDirectory input.path = true := by
  have hnone := hages.file?_eq_none (h.unwritten _ input.path_mem_toldPaths) hmissing
  obtain ⟨plan, -, hplace, -⟩ := exists_plan_of_inputOn hinput
  have hexists := (of_foundPath hplace).2
  rw [FileSystem.exists?, FileSystem.isFile, hnone] at hexists
  exact hexists

theorem changeTime_eq_of_file? {files : FileSystem} {path : Text} {file : File}
    (hproper : files.IsProper) (hfile : files.file? path = some file) :
    changeTime files path = .ok file.time := by
  have hthere : files.isFile path = true := by rw [FileSystem.isFile, hfile]; rfl
  simp [changeTime, FileSystem.exists?, FileSystem.timeOf, hthere, hproper path hthere, hfile,
    Except.mapError]

/-- An asset that stands since a pack that leaves alone what is watched is not out of date,
unless a directory that was made now stands for one of its inputs. -/
theorem StandsSince.exists_directory_of_isOutdated
    {start now : Workspace} {path : Text} {file : File} {inputs : List Input}
    (h : packer.StandsSince start now entry file) (hages : Ages start now)
    (hfile : now.files.file? path = some file) (hproper : now.files.IsProper)
    (hclock : 0 ≤ start.files.clock)
    (hinputs : packer.inputsOn now.files entry.2 = .ok inputs)
    (halone : ∀ input ∈ inputs, LeavesAlone start now input)
    (houtdated : IsOutdated false now.files path inputs) :
    ∃ input ∈ inputs, now.files.isDirectory input.path = true := by
  obtain ⟨time, htime, hwhen⟩ := houtdated
  obtain rfl := Except.ok.inj ((changeTime_eq_of_file? hproper hfile).symm.trans htime)
  rcases hwhen with hforced | hzero | hnewer
  · cases hforced
  · rcases h with hlater | ⟨hne, -⟩
    · omega
    · exact absurd hzero hne
  · obtain ⟨input, hinput, other, hother, changed, hchanged, hlt⟩ :=
      Input.exists_newer_of_anyIsNewer hnewer
    have halone := halone input hinput
    rw [← Input.mem_toldPaths] at hother
    rcases h with hlater | ⟨-, turn, inputs', hturn, hnow, hinputs', holder⟩
    · have := halone.time_le hages hproper hclock hother hchanged
      omega
    · obtain ⟨elements, helements, element, helement, hfound⟩ :=
        (mem_inputsOn_iff hinputs).mp hinput
      by_cases hpresent : start.files.exists? input.path = true
      · have hinput' : input ∈ inputs' := (mem_inputsOn_iff hinputs').mpr ⟨elements, helements,
          element, helement, inputOn_of_widens hnow.files hfound (hturn.files.exists? hpresent)⟩
        have := time_le_of_anyIsNewer halone hturn hnow hproper hinput' holder hother hchanged
        omega
      · exact ⟨input, hinput, isDirectory_of_missing halone hages hfound hpresent⟩

end Packer

end UrlRebase
