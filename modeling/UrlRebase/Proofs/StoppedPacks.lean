import UrlRebase.Proofs.ReadingBuilds
import UrlRebase.Proofs.UnmappedPacks

/-!
# Packs that are stopped

A pack comes to one asset after the other, and builds an asset before it writes anything of
it.  If the inputs of an asset cannot be told or the asset cannot be built, then the files of
this asset and of those behind it are as they were, and each asset before it that was asked for
and out of date is there as it was built.
-/

namespace UrlRebase

open Work Workspace FileSystem

/-! ## Files that are kept -/

/-- Whether a workspace is another with the same files at some paths. -/
structure Workspace.KeepsFiles (kept : Set Text) (before after : Workspace) : Prop where
  current : after.files.current = before.files.current
  file : ∀ path ∈ kept, after.files.file? path = before.files.file? path

instance (kept : Set Text) : IsPreorder Workspace (KeepsFiles kept) where
  refl _ := ⟨rfl, fun _ _ => rfl⟩
  trans _ _ _ h h' := ⟨h'.current.trans h.current, fun path hpath =>
    (h'.file path hpath).trans (h.file path hpath)⟩

theorem Workspace.Reads.keepsFiles {kept : Set Text} {before after : Workspace}
    (h : Reads before after) : KeepsFiles kept before after :=
  ⟨congrArg _ h.files, fun path _ => congrArg (FileSystem.file? · path) h.files⟩

/-- Whether no path is kept that means the same place as a target. -/
def FileSystem.Avoids (files : FileSystem) (target : Text) (kept : Set Text) : Prop :=
  ∀ path ∈ kept, files.key path ≠ files.key target

theorem FileSystem.avoids_empty {files : FileSystem} {target : Text} : files.Avoids target ∅ :=
  fun _ h => h.elim

theorem FileSystem.Avoids.congr
    {files files' : FileSystem} {target : Text} {kept : Set Text} (h : files.Avoids target kept)
    (hcurrent : files'.current = files.current) : files'.Avoids target kept := by
  intro path hpath
  rw [key_congr hcurrent, key_congr hcurrent]
  exact h path hpath

section Keeping

variable {kept : Set Text} {before : Workspace}

theorem keeps_makeDirectories (path : Text) :
    Leads (KeepsFiles kept) (makeDirectories path) before fun _ _ => True :=
  Leads.of_modify ⟨rfl, fun _ _ => rfl⟩ trivial

theorem keeps_write {target : Text} (h : before.files.Avoids target kept) (bytes : ByteArray) :
    Leads (KeepsFiles kept) (Work.write target bytes) before fun _ _ => True :=
  Leads.write fun _ hwrite => ⟨⟨(write_eq_ok hwrite).1.current, fun path hpath =>
    (file?_of_write hwrite).2 path (h path hpath)⟩, trivial⟩

theorem keeps_writeText {target : Text} (h : before.files.Avoids target kept) (text : Text) :
    Leads (KeepsFiles kept) (writeText target text) before fun _ _ => True :=
  Leads.writeText (keeps_write h)

end Keeping

namespace Packer

variable {packer : Packer} {asset : Option Text} {force : Bool}

/-! ## Turns -/

/-- What a pack does when it comes to an asset. -/
def takeTurn (packer : Packer) (asset : Option Text) (force : Bool) (entry : Setting × Setting) :
    Work Unit := do
  let inputs ← packer.inputsOf entry.2
  if isAsked asset entry.1 then
    packer.packInputs force (← Work.lift (fileName entry.1)) inputs

theorem forM_append {α : Type} (f : α → Work PUnit) (front back : List α) :
    (front ++ back).forM f = front.forM f >>= fun _ => back.forM f :=
  List.forM_append

theorem pack_eq_turns (asset : Option Text) (force : Bool) :
    packer.pack asset force = (do
      forgetFiles
      (← Work.lift packer.entries).forM (packer.takeTurn asset force)
      packer.copyFound) :=
  rfl

def outputPaths (packer : Packer) (current : Text) (entry : Setting × Setting) : List Text :=
  match fileName entry.1 >>= packer.outputPath current with
  | .ok path => [path, path ++ ".map".text]
  | .error _ => []

theorem outputPaths_eq
    {current name path : Text} {entry : Setting × Setting} (hname : fileName entry.1 = .ok name)
    (hpath : packer.outputPath current name = .ok path) :
    packer.outputPaths current entry = [path, path ++ ".map".text] := by
  have hfound : fileName entry.1 >>= packer.outputPath current = .ok path :=
    Except.bind_eq_ok.mpr ⟨name, hname, hpath⟩
  rw [outputPaths, hfound]

/-- What holds of making directories, of reading and of the two files that can be written holds
of writing an asset, whose style sheet is written last. -/
theorem leads_writeAsset
    {R : Workspace → Workspace → Prop} [IsPreorder Workspace R] {name path : Text}
    {inputs : List Input} {post : Workspace → Prop}
    {before : Workspace} (hreads : ∀ {first second}, Reads first second → R first second)
    (hmake : Leads R (makeDirectories (Path.dirname path)) before fun _ _ => True)
    (hmap : ∀ built, R before built → ∀ text,
      Leads R (writeText (path ++ ".map".text) text) built fun _ _ => True)
    (hsheet : ∀ mapped, R before mapped → ∀ text,
      Leads R (writeText path text) mapped fun _ => post) :
    Leads R (packer.write name inputs path) before fun _ => post := by
  unfold write
  apply hmake.bind
  intro _ made hmade _
  apply ((reads_build name inputs path).weaken (S := R) hreads).bind
  rintro ⟨text, map⟩ built hbuilt -
  have hbuilt := trans_of R hmade hbuilt
  cases map with
  | none => exact hsheet built hbuilt text
  | some map =>
      apply Leads.lift_bind
      intro printed _
      apply (hmap built hbuilt printed).bind
      intro _ mapped hmapped _
      exact hsheet mapped (trans_of R hbuilt hmapped) _

section Kept

variable {kept : Set Text} {before : Workspace}

theorem keeps_writeAsset
    {path : Text} (hsheet : before.files.Avoids path kept)
    (hmap : before.files.Avoids (path ++ ".map".text) kept) (name : Text) (inputs : List Input) :
    Leads (KeepsFiles kept) (packer.write name inputs path) before fun _ _ => True :=
  leads_writeAsset Reads.keepsFiles (keeps_makeDirectories _)
    (fun _ hbuilt _ => keeps_writeText (hmap.congr hbuilt.current) _)
    fun _ hmapped _ => keeps_writeText (hsheet.congr hmapped.current) _

/-- What holds of reading and of writing the asset holds of its turn. -/
theorem leads_takeTurn
    {R : Workspace → Workspace → Prop} [IsPreorder Workspace R] {entry : Setting × Setting}
    (hreads : ∀ {first second}, Reads first second → R first second)
    (hwrite : ∀ between, Reads before between → ∀ name path, fileName entry.1 = .ok name →
      packer.outputPath before.files.current name = .ok path → ∀ inputs,
        Leads R (packer.write name inputs path) between fun _ _ => True) :
    Leads R (packer.takeTurn asset force entry) before fun _ _ => True := by
  unfold takeTurn
  apply (((leads_inputsOf entry.2).mono fun _ _ h _ => h).weaken hreads).bind
  intro inputs listed _ hlisted
  split
  · apply Leads.lift_bind
    intro name hname
    unfold packInputs
    apply leads_current.bind
    rintro current _ - ⟨rfl, rfl⟩
    apply Leads.lift_bind
    intro path hpath
    rw [hlisted.files] at hpath
    apply (((leads_timeOf path).mono fun _ _ h _ => h).weaken hreads).bind
    intro time timed _ htimed
    have htimed := trans_of Reads hlisted htimed
    split
    · exact hwrite timed htimed name path hname hpath inputs
    · apply (((leads_anyChangedAfter inputs time).mono fun _ _ h _ => h).weaken hreads).bind
      intro isChanged between _ hbetween
      split
      · exact hwrite between (trans_of Reads htimed hbetween) name path hname hpath inputs
      · exact Leads.of_pure trivial
  · exact Leads.of_pure trivial

theorem keeps_takeTurn
    {entry : Setting × Setting}
    (h : ∀ target ∈ packer.outputPaths before.files.current entry,
      before.files.Avoids target kept) :
    Leads (KeepsFiles kept) (packer.takeTurn asset force entry) before fun _ _ => True := by
  refine leads_takeTurn Reads.keepsFiles fun between hbetween name path hname hpath inputs => ?_
  have hpaths := outputPaths_eq hname hpath
  have hcurrent := congrArg FileSystem.current hbetween.files
  exact keeps_writeAsset ((h path (by simp [hpaths])).congr hcurrent)
    ((h (path ++ ".map".text) (by simp [hpaths])).congr hcurrent) name inputs

/-- The turns of assets keep the files at all paths that none of them means. -/
theorem keeps_turns
    {entries : List (Setting × Setting)}
    (h : ∀ entry ∈ entries, ∀ target ∈ packer.outputPaths before.files.current entry,
      before.files.Avoids target kept) :
    Leads (KeepsFiles kept) (entries.forM (packer.takeTurn asset force)) before
      fun _ _ => True := by
  have hall : Leads (KeepsFiles kept) (entries.forM (packer.takeTurn asset force)) before
      fun _ _ => ∀ entry ∈ entries, True := by
    refine Leads.forM (fun _ _ _ _ _ => trivial) fun entry hentry between hbetween => ?_
    refine keeps_takeTurn fun target htarget => ?_
    rw [hbetween.current] at htarget
    exact (h entry hentry target htarget).congr hbetween.current
  exact hall.mono fun _ _ _ _ => trivial

theorem current_of_turns
    {entries : List (Setting × Setting)} {result : Except Failure Unit} {after : Workspace}
    (h : Runs (entries.forM (packer.takeTurn asset force)) before result after) :
    after.files.current = before.files.current := by
  exact (keeps_turns (fun _ _ _ _ => avoids_empty) _ _ h).1.current

end Kept

/-! ## Assets that are out of date -/

/-- When a path was changed; zero if nothing is there. -/
def changeTime (files : FileSystem) (path : Text) : Except Failure Int :=
  if files.exists? path then (files.timeOf path).mapError .file else .ok 0

/-- Whether a packed asset is to be written: it is forced, it is not there, or an input is
newer. -/
def IsOutdated (force : Bool) (files : FileSystem) (path : Text) (inputs : List Input) : Prop :=
  ∃ time, changeTime files path = .ok time ∧
    (force = true ∨ time = 0 ∨ Input.anyIsNewer files time inputs = .ok true)

/-- Whether an asset is asked for and out of date when its turn comes: its name, the path to
which it is written, its inputs, and the workspace when they are listed. -/
structure IsDue (packer : Packer) (asset : Option Text) (force : Bool) (turn : Workspace)
    (entry : Setting × Setting) (name path : Text) (inputs : List Input) (listed : Workspace) :
    Prop where
  listing : Runs (packer.inputsOf entry.2) turn (.ok inputs) listed
  asked : isAsked asset entry.1 = true
  named : fileName entry.1 = .ok name
  placed : packer.outputPath turn.files.current name = .ok path
  outdated : IsOutdated force turn.files path inputs

/-- The workspace in which an asset is built, with the directory for its path. -/
def madeReady (listed : Workspace) (path : Text) : Workspace :=
  { listed with files := listed.files.makeDirectories (Path.dirname path) }

/-- Whether an asset is there as it was built, with its map if it has one. -/
structure IsComplete (files : FileSystem) (name path text : Text) (map : Option SourceMap) :
    Prop where
  sheet : files.HasText path (finished name text map)
  map : ∀ whole, map = some whole →
    ∃ printed, whole.print = .ok printed ∧ files.HasText (path ++ ".map".text) printed

theorem runs_timeOf (path : Text) (workspace : Workspace) :
    Runs (timeOf path) workspace (changeTime workspace.files path) workspace := by
  unfold timeOf changeTime
  refine Runs.bind (Runs.of_get workspace) ?_
  simp only
  split
  · exact Runs.of_lift _ _
  · exact Runs.of_pure _ _

section Due

variable {turn listed after : Workspace} {entry : Setting × Setting} {name path : Text}
  {inputs : List Input}

theorem IsDue.files_eq
    (h : packer.IsDue asset force turn entry name path inputs listed) :
    listed.files = turn.files :=
  (leads_inputsOf entry.2 _ _ h.listing).1.files

/-- The turn of an asset that is due is to write it. -/
theorem IsDue.runs_takeTurn
    (h : packer.IsDue asset force turn entry name path inputs listed) {result : Except Failure Unit}
    (hwrite : Runs (packer.write name inputs path) listed result after) :
    Runs (packer.takeTurn asset force entry) turn result after := by
  have hpath := h.placed
  obtain ⟨time, htime, hwhen⟩ := h.outdated
  rw [← h.files_eq] at hpath htime hwhen
  have hcurrent : Runs current listed (.ok listed.files.current) listed := rfl
  have hlocated : Runs (Work.lift (packer.outputPath listed.files.current name)) listed
      (.ok path) listed := hpath ▸ Runs.of_lift _ _
  have htimed : Runs (timeOf path) listed (.ok time) listed := htime ▸ runs_timeOf path listed
  have hnamed : Runs (Work.lift (fileName entry.1)) listed (.ok name) listed :=
    h.named ▸ Runs.of_lift _ _
  have hpacked : Runs (packer.packInputs force name inputs) listed result after := by
    refine Runs.bind hcurrent (Runs.bind hlocated (Runs.bind htimed ?_))
    split
    · exact hwrite
    · rename_i hneeded
      rw [Bool.or_eq_true, decide_eq_true_iff, not_or] at hneeded
      have hnewer := (hwhen.resolve_left hneeded.1).resolve_left hneeded.2
      have hchanged : Runs (anyChangedAfter inputs time) listed (.ok true) listed :=
        Runs.bind (Runs.of_get listed) (hnewer ▸ Runs.of_lift _ _)
      exact Runs.bind hchanged hwrite
  refine Runs.bind h.listing ?_
  rw [if_pos h.asked]
  exact Runs.bind hnamed hpacked

theorem runs_write_of_build_error
    {error : Failure}
    (h : Runs (packer.build name inputs path) (madeReady listed path) (.error error) after) :
    Runs (packer.write name inputs path) listed (.error error) after :=
  Runs.bind (Runs.of_modify _ listed) (Runs.bind_error h)

/-- What is written is what was built, the map first. -/
theorem isComplete_of_write
    (hkeys : listed.files.key (path ++ ".map".text) ≠ listed.files.key path)
    (hwrite : Runs (packer.write name inputs path) listed (.ok ⟨⟩) after) :
    ∃ text map built,
      Runs (packer.build name inputs path) (madeReady listed path) (.ok (text, map)) built ∧
      IsComplete after.files name path text map := by
  obtain ⟨text, map, built, mapped, hbuilt, hmap, hlast⟩ := exists_build_of_write hwrite
  obtain ⟨bytes, hbytes, hsecond⟩ := exists_of_writeText hlast
  refine ⟨text, map, built, hbuilt, ⟨bytes, hbytes, (file?_of_write hsecond).1⟩, ?_⟩
  intro whole hwhole
  obtain ⟨printed, hprinted, hmapped⟩ := hmap whole hwhole
  obtain ⟨mapBytes, hmapBytes, hfirst⟩ := exists_of_writeText hmapped
  refine ⟨printed, hprinted, mapBytes, hmapBytes, ?_⟩
  have hhere : built.files.current = listed.files.current :=
    (congrArg FileSystem.current (reads_build name inputs path _ _ hbuilt).1.files).trans rfl
  have hcurrent := (write_eq_ok hfirst).1.current.trans hhere
  rw [← key_congr hcurrent, ← key_congr hcurrent] at hkeys
  -- The map was written first, and the style sheet does not go over it.
  rw [HasBytes, (file?_of_write hsecond).2 _ hkeys]
  exact (file?_of_write hfirst).1

theorem IsComplete.of_keeps
    {text : Text} {map : Option SourceMap} {kept : Set Text} {before : Workspace}
    (h : IsComplete before.files name path text map) (hkeeps : KeepsFiles kept before after)
    (hsheet : path ∈ kept) (hmap : path ++ ".map".text ∈ kept) :
    IsComplete after.files name path text map := by
  have hbytes {other : Text} (hother : other ∈ kept) {content : Text}
      (htext : before.files.HasText other content) : after.files.HasText other content := by
    obtain ⟨bytes, hbytes, hfile⟩ := htext
    refine ⟨bytes, hbytes, ?_⟩
    rw [HasBytes, hkeeps.file other hother]
    exact hfile
  refine ⟨hbytes hsheet h.sheet, fun whole hwhole => ?_⟩
  obtain ⟨printed, hprinted, htext⟩ := h.map whole hwhole
  exact ⟨printed, hprinted, hbytes hmap htext⟩

end Due

/-! ## Packs that break off -/

/-- Whether a pack breaks off when it comes to an asset: its inputs cannot be told, whether it is
asked for or not, or it is due and cannot be built. -/
inductive BreaksOff (packer : Packer) (asset : Option Text) (force : Bool) (turn : Workspace)
    (entry : Setting × Setting) (error : Failure) (after : Workspace) : Prop
  | listing (hlisting : Runs (packer.inputsOf entry.2) turn (.error error) after) :
      BreaksOff packer asset force turn entry error after
  | building {name path : Text} {inputs : List Input} {listed : Workspace}
      (hdue : packer.IsDue asset force turn entry name path inputs listed)
      (hbuild : Runs (packer.build name inputs path) (madeReady listed path) (.error error) after) :
      BreaksOff packer asset force turn entry error after

/-- Whether a pack comes through some assets and then breaks off at one. -/
structure StopsAt (packer : Packer) (asset : Option Text) (force : Bool) (before : Workspace)
    (front : List (Setting × Setting)) (entry : Setting × Setting)
    (back : List (Setting × Setting)) (error : Failure) (after : Workspace) : Prop where
  entries : packer.entries = .ok (front ++ entry :: back)
  breaksOff : ∃ turn,
    Runs (front.forM (packer.takeTurn asset force)) (forgotten before) (.ok ⟨⟩) turn ∧
      packer.BreaksOff asset force turn entry error after

/-- Whether all paths to which assets and their maps are written mean different places. -/
def HasDistinctOutputs (packer : Packer) (files : FileSystem) (entries : List (Setting × Setting)) :
    Prop :=
  ((entries.flatMap (packer.outputPaths files.current)).map files.key).Nodup

section Stopped

variable {before turn after : Workspace} {entry : Setting × Setting}
  {front back : List (Setting × Setting)} {error : Failure}

theorem BreaksOff.runs_takeTurn (h : packer.BreaksOff asset force turn entry error after) :
    Runs (packer.takeTurn asset force entry) turn (.error error) after := by
  cases h with
  | listing hlisting => exact Runs.bind_error hlisting
  | building hdue hbuild => exact hdue.runs_takeTurn (runs_write_of_build_error hbuild)

theorem BreaksOff.keepsFiles
    (h : packer.BreaksOff asset force turn entry error after) (kept : Set Text) :
    KeepsFiles kept turn after := by
  cases h with
  | listing hlisting => exact (leads_inputsOf entry.2 _ _ hlisting).1.keepsFiles
  | @building name path inputs listed hdue hbuild =>
      have hready : KeepsFiles kept listed (madeReady listed path) := ⟨rfl, fun _ _ => rfl⟩
      exact trans_of (KeepsFiles kept) (leads_inputsOf entry.2 _ _ hdue.listing).1.keepsFiles
        (trans_of (KeepsFiles kept) hready (reads_build name inputs path _ _ hbuild).1.keepsFiles)

theorem StopsAt.runs_pack
    (h : packer.StopsAt asset force before front entry back error after) :
    Runs (packer.pack asset force) before (.error error) after := by
  obtain ⟨turn, hfront, hbreaks⟩ := h.breaksOff
  have hforget : Runs forgetFiles before (.ok ⟨⟩) (forgotten before) := rfl
  have hread : Runs (Work.lift packer.entries) (forgotten before)
      (.ok (front ++ entry :: back)) (forgotten before) := h.entries ▸ Runs.of_lift _ _
  have hturns : Runs ((front ++ entry :: back).forM (packer.takeTurn asset force))
      (forgotten before) (.error error) after := by
    rw [forM_append]
    exact hfront.bind (Runs.bind_error hbreaks.runs_takeTurn)
  rw [pack_eq_turns]
  exact hforget.bind (hread.bind (Runs.bind_error hturns))

theorem HasDistinctOutputs.avoids
    {files : FileSystem} (h : packer.HasDistinctOutputs files (front ++ back))
    {current : Text} (hcurrent : current = files.current) :
    ∀ entry ∈ front, ∀ target ∈ packer.outputPaths current entry, ∀ other ∈ back,
      ∀ path ∈ packer.outputPaths current other,
        files.key path ≠ files.key target ∧ files.key target ≠ files.key path := by
  subst hcurrent
  intro entry hentry target htarget other hother path hpath
  unfold HasDistinctOutputs at h
  rw [List.flatMap_append, List.map_append, List.nodup_append] at h
  have hne := h.2.2 _ (List.mem_map_of_mem (List.mem_flatMap.mpr ⟨entry, hentry, htarget⟩)) _
    (List.mem_map_of_mem (List.mem_flatMap.mpr ⟨other, hother, hpath⟩))
  exact ⟨Ne.symm hne, hne⟩

theorem HasDistinctOutputs.key_ne
    {files : FileSystem} (h : packer.HasDistinctOutputs files (front ++ entry :: back))
    {name path : Text} (hname : fileName entry.1 = .ok name)
    (hpath : packer.outputPath files.current name = .ok path) :
    files.key (path ++ ".map".text) ≠ files.key path := by
  unfold HasDistinctOutputs at h
  rw [List.flatMap_append, List.flatMap_cons, outputPaths_eq hname hpath, List.map_append,
    List.map_append, List.nodup_append, List.nodup_append] at h
  have hown := h.2.1.1
  simp only [List.map_cons, List.map_nil, List.nodup_cons, List.mem_singleton] at hown
  exact Ne.symm hown.1

/-- What an asset that is due leaves stays complete while the others have their turns. -/
theorem isComplete_of_turns
    {earlier later : List (Setting × Setting)} {done : Setting × Setting} {listed last : Workspace}
    {name path : Text} {inputs : List Input} {files : FileSystem}
    (hdistinct : packer.HasDistinctOutputs files (earlier ++ done :: (later ++ back)))
    (hcurrent : turn.files.current = files.current)
    (hdue : packer.IsDue asset force turn done name path inputs listed)
    (hturns : Runs ((done :: later).forM (packer.takeTurn asset force)) turn (.ok ⟨⟩) last) :
    ∃ text map built,
      Runs (packer.build name inputs path) (madeReady listed path) (.ok (text, map)) built ∧
      IsComplete last.files name path text map := by
  have hhere : listed.files.current = files.current := by rw [hdue.files_eq, hcurrent]
  have hpath := hdue.placed
  rw [hcurrent] at hpath
  obtain ⟨_, next, hdone, hlater⟩ := exists_of_bind hturns
  obtain ⟨result, written, hwrite⟩ :
      ∃ result written, Runs (packer.write name inputs path) listed result written := ⟨_, _, rfl⟩
  obtain ⟨rfl, rfl⟩ := Prod.mk.inj (hdone.symm.trans (hdue.runs_takeTurn hwrite))
  have hkeys := hdistinct.key_ne hdue.named hpath
  rw [← key_congr hhere, ← key_congr hhere] at hkeys
  obtain ⟨text, map, built, hbuilt, hcomplete⟩ := isComplete_of_write hkeys hwrite
  have hnext : next.files.current = files.current :=
    (keeps_takeTurn (fun _ _ => avoids_empty) _ _ hdone).1.current.trans hcurrent
  have hsplit : packer.HasDistinctOutputs files ((earlier ++ [done]) ++ (later ++ back)) := by
    rwa [List.append_assoc, List.singleton_append]
  let kept : Set Text := {other | other ∈ packer.outputPaths files.current done}
  have hkept : KeepsFiles kept next last := by
    refine (keeps_turns (fun other hother target htarget path hpath => ?_) _ _ hlater).1
    rw [key_congr hnext, key_congr hnext]
    rw [hnext] at htarget
    exact (hsplit.avoids rfl done (by simp) path hpath other (List.mem_append_left _ hother) target
      htarget).2
  have hpaths := outputPaths_eq hdue.named hpath
  exact ⟨text, map, built, hbuilt, hcomplete.of_keeps hkept (by simp [kept, hpaths])
    (by simp [kept, hpaths])⟩

end Stopped

/-- A packer of three style sheets, the second one of an input that is none. -/
def withUnknown : Packer :=
  { ofNames [] with
    assets := .table none [(.text "a.css".text, .text "a.css".text),
      (.text "b.css".text, .list none [.null]), (.text "c.css".text, .text "b.css".text)] }

def firstInput : Input where
  name := "a.css".text
  path := "/p/src/a.css".text
  processors := [.text "cssrebase.processors.rewrite.process".text]
  depends := .list none []

end Packer

end UrlRebase
