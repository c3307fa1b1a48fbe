import UrlRebase.Proofs.StoppedPacks
import UrlRebase.Proofs.ToldInputs
import UrlRebase.Proofs.ToldTables

/-!
# Packs of one asset

A forced pack of one asset lists the inputs of all assets and writes the one that is asked for,
whether it is out of date or not.  Until its turn nothing is done but to add to the log, and
with its directory made it is built to what it is built to without.  If it can be written when
it is built, then a pack that fails at an asset breaks off there.
-/

namespace UrlRebase

open Work Workspace FileSystem

theorem Setting.eq_of_same_text {value : Setting} {text : Text}
    (h : value.same (.text text) = true) : value = .text text := by
  cases value <;> simp_all [same, sameScalar, number?]

namespace Work

variable {α : Type} {f : α → Work PUnit} {before after : Workspace}

/-- A loop that fails fails at one of its elements. -/
theorem exists_failing_of_forM
    {list : List α} {error : Failure} (h : Runs (list.forM f) before (.error error) after) :
    ∃ front a back turn, list = front ++ a :: back ∧
      Runs (front.forM f) before (.ok ⟨⟩) turn ∧ Runs (f a) turn (.error error) after := by
  induction list generalizing before with
  | nil => cases (Prod.mk.inj h).1
  | cons a rest ih =>
      rcases runs_bind_cases h with ⟨_, between, ha, hrest⟩ | ⟨_, herror, ha⟩
      · obtain ⟨front, failing, back, turn, rfl, hfront, hfailing⟩ := ih hrest
        exact ⟨a :: front, failing, back, turn, rfl, ha.bind hfront, hfailing⟩
      · obtain rfl := Except.error.inj herror
        exact ⟨[], a, rest, before, rfl, Runs.of_pure _ _, ha⟩

theorem exists_turn_of_forM
    {front back : List α} {a : α}
    (h : Runs ((front ++ a :: back).forM f) before (.ok ⟨⟩) after) :
    ∃ turn next, Runs (front.forM f) before (.ok ⟨⟩) turn ∧ Runs (f a) turn (.ok ⟨⟩) next ∧
      Runs (back.forM f) next (.ok ⟨⟩) after := by
  rw [Packer.forM_append] at h
  obtain ⟨_, turn, hfront, h⟩ := exists_of_bind h
  obtain ⟨_, next, ha, hback⟩ := exists_of_bind h
  exact ⟨turn, next, hfront, ha, hback⟩

end Work

namespace FileSystem

/-- Whether a text can be written to a path, and the files that there are then. -/
def Takes (files : FileSystem) (path text : Text) (stored : FileSystem) : Prop :=
  ∃ bytes, Utf8.encode? text = some bytes ∧ files.write path bytes = .ok stored

end FileSystem

theorem Work.exists_runs_writeText
    {files stored : FileSystem} {path text : Text} (h : files.Takes path text stored)
    {before : Workspace} (hbefore : before.files = files) :
    ∃ after, Runs (writeText path text) before (.ok ⟨⟩) after ∧ after.files = stored := by
  obtain ⟨bytes, hbytes, hwrite⟩ := h
  subst hbefore
  unfold writeText
  rw [hbytes]
  exact ⟨_, runs_write_of_ok hwrite, rfl⟩

namespace Packer

variable {packer : Packer} {asset path : Text} {list : Setting} {force : Bool}
  {files : FileSystem} {before after turn : Workspace} {entries : List (Setting × Setting)}

/-! ## What can be written -/

/-- Whether an asset that was built can be written, its map first if it has one. -/
def CanStore (files : FileSystem) (name path text : Text) : Option SourceMap → Prop
  | none => ∃ stored, files.Takes path text stored
  | some map => ∃ printed mapped stored, map.print = .ok printed ∧
      files.Takes (path ++ ".map".text) printed mapped ∧
      mapped.Takes path (text ++ trailer (Path.basename name ++ ".map".text)) stored

theorem exists_runs_write_of_canStore
    {name text : Text} {map : Option SourceMap} {inputs : List Input} {listed built : Workspace}
    (hbuild : Runs (packer.build name inputs path) (madeReady listed path) (.ok (text, map)) built)
    (hstore : CanStore built.files name path text map) :
    ∃ after, Runs (packer.write name inputs path) listed (.ok ⟨⟩) after := by
  have hmade : Runs (makeDirectories (Path.dirname path)) listed (.ok ⟨⟩)
      (madeReady listed path) := Runs.of_modify _ listed
  cases map with
  | none =>
      obtain ⟨stored, hstored⟩ := hstore
      obtain ⟨after, hafter, -⟩ := exists_runs_writeText hstored rfl
      exact ⟨after, hmade.bind (hbuild.bind hafter)⟩
  | some map =>
      obtain ⟨printed, mapped, stored, hprinted, hmapped, hstored⟩ := hstore
      have hprint : Runs (Work.lift (map.print.mapError .mapWrite)) built (.ok printed) built := by
        rw [hprinted]
        exact Runs.of_lift _ _
      obtain ⟨between, hfirst, hbetween⟩ := exists_runs_writeText hmapped rfl
      obtain ⟨after, hsecond, -⟩ := exists_runs_writeText hstored hbetween
      exact ⟨after, hmade.bind (hbuild.bind (hprint.bind (hfirst.bind hsecond)))⟩

/-- Whether an asset goes to a path where its directory can be made, and can be written there if
it can be built. -/
structure CanWrite (packer : Packer) (files : FileSystem) (asset : Text) (list : Setting)
    (path : Text) : Prop where
  placed : packer.outputPath files.current asset = .ok path
  made : files.CanMake (Path.dirname path)
  stored : ∀ inputs text map, packer.inputsOn files list = .ok inputs →
    packer.buildOn files asset inputs path = .ok (text, map) →
    CanStore (files.makeDirectories (Path.dirname path)) asset path text map

/-! ## The asset among the others -/

/-- What a dictionary with an asset among its keys has: one entry with its name. -/
structure HasOne (entries : List (Setting × Setting)) (asset : Text) (list : Setting) : Prop where
  distinct : entries.Pairwise fun entry other => entry.1.same other.1 = false
  mem : (.text asset, list) ∈ entries

section One

variable (hone : HasOne entries asset list)
include hone

theorem HasOne.not_asked_of_front
    {front back : List (Setting × Setting)} {entry : Setting × Setting}
    (hsplit : entries = front ++ entry :: back) (hname : entry.1 = .text asset) :
    ∀ other ∈ front, other.1.same (.text asset) = false := by
  intro other hother
  have hdistinct := hone.distinct
  rw [hsplit, List.pairwise_append] at hdistinct
  exact hname ▸ hdistinct.2.2 other hother entry List.mem_cons_self

theorem HasOne.not_asked_of_back
    {front back : List (Setting × Setting)} {entry : Setting × Setting}
    (hsplit : entries = front ++ entry :: back) (hname : entry.1 = .text asset) :
    ∀ other ∈ back, other.1.same (.text asset) = false := by
  intro other hother
  have hdistinct := hone.distinct
  rw [hsplit, List.pairwise_append, List.pairwise_cons] at hdistinct
  have hdifferent := hdistinct.2.1.1 other hother
  rw [Bool.eq_false_iff]
  intro hsame
  rw [hname, Setting.eq_of_same_text hsame, Setting.same_text] at hdifferent
  simp at hdifferent

theorem HasOne.eq_of_asked
    {entry : Setting × Setting} (hentry : entry ∈ entries)
    (hasked : entry.1.same (.text asset) = true) : entry = (.text asset, list) := by
  obtain ⟨front, back, hsplit⟩ := List.append_of_mem hone.mem
  have hnot {other : Setting × Setting} (h : other.1.same (.text asset) = false)
      (hsame : other = entry) : entry = (.text asset, list) := by
    rw [hsame, hasked] at h
    cases h
  rw [hsplit, List.mem_append, List.mem_cons] at hentry
  rcases hentry with hfront | hself | hback
  · exact hnot (hone.not_asked_of_front hsplit rfl entry hfront) rfl
  · exact hself
  · exact hnot (hone.not_asked_of_back hsplit rfl entry hback) rfl

end One

/-! ## Packing to a file -/

theorem follows_writeAsset (name : Text) (inputs : List Input) (path : Text) :
    Leads Follows (packer.write name inputs path) before fun _ _ => True :=
  leads_writeAsset Reads.follows ((leads_makeDirectories _).mono fun _ _ _ _ => trivial)
    (fun _ _ _ => leads_writeText _ _) fun _ _ _ => leads_writeText _ _

/-- While assets have their turns, nothing that is there goes away. -/
theorem grows_of_turns
    {asset : Option Text} {result : Except Failure PUnit}
    (h : Runs (entries.forM (packer.takeTurn asset force)) before result after) :
    before.files.Grows after.files := by
  have hall : Leads Follows (entries.forM (packer.takeTurn asset force)) before
      fun _ _ => ∀ entry ∈ entries, True :=
    Leads.forM (fun _ _ _ _ _ => trivial) fun entry _ between _ =>
      leads_takeTurn Reads.follows fun _ _ name path _ _ inputs =>
        follows_writeAsset name inputs path
  exact (hall _ _ h).1.files

theorem isAsked_some (hne : asset ≠ []) (name : Setting) :
    isAsked (some asset) name = name.same (.text asset) := by
  obtain ⟨c, rest, rfl⟩ := List.exists_cons_of_ne_nil hne
  rfl

/-- The turn of an asset that is not asked for is to list its inputs. -/
theorem tells_takeTurn
    {entry : Setting × Setting} {asset : Option Text} (hnot : isAsked asset entry.1 = false) :
    Tells (packer.takeTurn asset force entry)
      fun files => packer.inputsOn files entry.2 >>= fun _ => .ok ⟨⟩ := by
  unfold takeTurn
  rw [hnot]
  exact (tells_inputsOf entry.2).bind fun _ => Tells.of_pure _

theorem exists_log_of_turns
    {asset : Option Text} {result : Except Failure PUnit}
    (hnot : ∀ entry ∈ entries, isAsked asset entry.1 = false)
    (h : Runs (entries.forM (packer.takeTurn asset force)) before result after) :
    ∃ log, after = { before with log } := by
  have hall : Leads Logs (entries.forM (packer.takeTurn asset force)) before
      fun _ _ => ∀ entry ∈ entries, True := by
    refine Leads.forM (fun _ _ _ _ _ => trivial) fun entry hentry between _ result after hruns => ?_
    exact ⟨((tells_takeTurn (hnot entry hentry)).eq_of_runs hruns).2, fun _ _ => trivial⟩
  exact (hall _ _ h).1

theorem exists_changeTime (files : FileSystem) (path : Text) :
    ∃ time, changeTime files path = .ok time := by
  unfold changeTime FileSystem.timeOf
  split
  · rename_i hthere
    split
    · exact ⟨0, rfl⟩
    · rename_i hnot
      rcases exists?_iff.mp hthere with ⟨file, hfile⟩ | hdirectory
      · rw [FileSystem.file?, hfile]
        exact ⟨file.time, rfl⟩
      · exact absurd hdirectory hnot
  · exact ⟨0, rfl⟩

/-- A forced pack comes to the asset that it is asked for with nothing else done than the inputs
of other assets listed. -/
theorem HasOne.exists_log_of_front
    {front back : List (Setting × Setting)} {entry : Setting × Setting}
    (hone : HasOne entries asset list) (hne : asset ≠ [])
    (hsplit : entries = front ++ entry :: back) (hname : entry.1 = .text asset)
    (hfront : Runs (front.forM (packer.takeTurn (some asset) force)) (forgotten before) (.ok ⟨⟩)
      turn) :
    ∃ log, turn = { forgotten before with log } :=
  exists_log_of_turns (fun other hother => by
    rw [isAsked_some hne, hone.not_asked_of_front hsplit hname other hother]) hfront

theorem knows_univ_of_log {log : List LogEntry} :
    Knows Set.univ before.files { forgotten before with log } :=
  ⟨.refl _ _, by simp [forgotten, Cache.empty, Cache.find?],
    by simp [forgotten, Cache.empty, Cache.find?]⟩

theorem drawsWithin_univ (inputs : List Input) : packer.DrawsWithin Set.univ files inputs :=
  fun _ _ => ⟨trivial, fun _ _ => trivial⟩

section Asset

variable {inputs : List Input} {listed : Workspace} {log : List LogEntry}
  (hcan : packer.CanWrite before.files asset list path)
include hcan

theorem CanWrite.isDue
    (hne : asset ≠ []) (hlisting : Runs (packer.inputsOf list) { forgotten before with log }
      (.ok inputs) listed) :
    packer.IsDue (some asset) true { forgotten before with log } (.text asset, list) asset path
      inputs listed := by
  obtain ⟨time, htime⟩ := exists_changeTime before.files path
  exact ⟨hlisting, by simp [isAsked_some hne], rfl, hcan.placed, time, htime, .inl rfl⟩

/-- The asset is built on the files with its directory to what it is built to without. -/
theorem CanWrite.of_build
    {result : Except Failure (Text × Option SourceMap)} {built : Workspace}
    (hlisting : Runs (packer.inputsOf list) { forgotten before with log } (.ok inputs) listed)
    (hbuild : Runs (packer.build asset inputs path) (madeReady listed path) result built) :
    packer.inputsOn before.files list = .ok inputs ∧
      result = packer.buildOn before.files asset inputs path ∧
      built.files = before.files.makeDirectories (Path.dirname path) := by
  obtain ⟨hinputs, log', rfl⟩ := (tells_inputsOf list).eq_of_runs hlisting
  have hready : Knows Set.univ (before.files.makeDirectories (Path.dirname path))
      (madeReady { forgotten before with log := log' } path) :=
    @knows_univ_of_log { before with
      files := before.files.makeDirectories (Path.dirname path) } log'
  obtain ⟨hresult, -, hfiles⟩ := (gives_build (drawsWithin_univ inputs)).eq_of_runs hready hbuild
  -- The inputs were there before the directory was made, so they read as they did.
  have hthere := exists?_of_inputsOn hinputs.symm
  rw [buildOn_congr (readsAlike_makeDirectories hcan.made) hthere] at hresult
  exact ⟨hinputs.symm, hresult, hfiles⟩

end Asset

/-! ## Where packs break off -/

theorem BreaksOff.of_runs
    {asset : Option Text} {entry : Setting × Setting} {error error' : Failure} {after' : Workspace}
    (h : packer.BreaksOff asset force turn entry error after)
    (hturn : Runs (packer.takeTurn asset force entry) turn (.error error') after') :
    packer.BreaksOff asset force turn entry error' after' := by
  obtain ⟨herror, rfl⟩ := Prod.mk.inj (h.runs_takeTurn.symm.trans hturn)
  obtain rfl := Except.error.inj herror
  exact h

section Stops

variable {front back : List (Setting × Setting)} {entry : Setting × Setting} {error : Failure}
  (hone : HasOne entries asset list) (hne : asset ≠ [])
  (hcan : packer.CanWrite before.files asset list path)
include hone hne hcan

/-- A forced pack that fails at an asset breaks off there, since it can write what it builds. -/
theorem HasOne.breaksOff_of_turn
    (hsplit : entries = front ++ entry :: back)
    (hfront : Runs (front.forM (packer.takeTurn (some asset) true)) (forgotten before) (.ok ⟨⟩)
      turn)
    (hturn : Runs (packer.takeTurn (some asset) true entry) turn (.error error) after) :
    packer.BreaksOff (some asset) true turn entry error after := by
  obtain ⟨result, listed, hlisting⟩ :
      ∃ result listed, Runs (packer.inputsOf entry.2) turn result listed := ⟨_, _, rfl⟩
  cases result with
  | error error' => exact BreaksOff.of_runs (.listing hlisting) hturn
  | ok inputs =>
      cases hasked : isAsked (some asset) entry.1 with
      | false =>
          have herror := ((tells_takeTurn hasked).eq_of_runs hturn).1
          rw [← ((tells_inputsOf entry.2).eq_of_runs hlisting).1] at herror
          cases herror
      | true =>
          rw [isAsked_some hne] at hasked
          obtain rfl := hone.eq_of_asked (by simp [hsplit]) hasked
          obtain ⟨log, rfl⟩ := hone.exists_log_of_front hne hsplit rfl hfront
          have hdue := hcan.isDue hne hlisting
          obtain ⟨result, built, hbuild⟩ : ∃ result built,
              Runs (packer.build asset inputs path) (madeReady listed path) result built :=
            ⟨_, _, rfl⟩
          rcases result with error' | ⟨text, map⟩
          · exact BreaksOff.of_runs (.building hdue hbuild) hturn
          -- Once it is built it can be written, and then its turn does not fail.
          · obtain ⟨hinputs, hbuilt, hfiles⟩ := hcan.of_build hlisting hbuild
            obtain ⟨written, hwrite⟩ := exists_runs_write_of_canStore hbuild
              (hfiles ▸ hcan.stored inputs text map hinputs hbuilt.symm)
            cases (Prod.mk.inj (hturn.symm.trans (hdue.runs_takeTurn hwrite))).1

end Stops

/-! ## Where packs come through -/

section Through

variable (hne : asset ≠ []) (hcan : packer.CanWrite before.files asset list path)

theorem exists_of_pack
    {asset : Option Text} (hentries : packer.entries = .ok entries)
    (h : Runs (packer.pack asset force) before (.ok ⟨⟩) after) :
    ∃ packed, Runs (entries.forM (packer.takeTurn asset force)) (forgotten before) (.ok ⟨⟩) packed ∧
      Runs packer.copyFound packed (.ok ⟨⟩) after := by
  rw [pack_eq_turns] at h
  obtain ⟨_, forgot, hforget, h⟩ := exists_of_bind h
  obtain ⟨-, rfl⟩ := Prod.mk.inj hforget
  obtain ⟨read, hread, h⟩ := exists_of_lift_bind h
  obtain rfl := Except.ok.inj (hentries.symm.trans hread)
  obtain ⟨_, packed, hturns, hcopied⟩ := exists_of_bind h
  exact ⟨packed, hturns, hcopied⟩

include hne hcan

/-- The turn of the asset writes what it is built to. -/
theorem CanWrite.exists_of_turn
    {log : List LogEntry}
    (hturn : Runs (packer.takeTurn (some asset) true (.text asset, list))
      { forgotten before with log } (.ok ⟨⟩) after) :
    ∃ inputs listed text map built,
      packer.IsDue (some asset) true { forgotten before with log } (.text asset, list) asset path
        inputs listed ∧
      Runs (packer.build asset inputs path) (madeReady listed path) (.ok (text, map)) built ∧
      after.files.HasText path (finished asset text map) := by
  obtain ⟨inputs, listed, hlisting, -⟩ := exists_of_bind hturn
  have hdue := hcan.isDue hne hlisting
  obtain ⟨result, written, hwrite⟩ : ∃ result written,
      Runs (packer.write asset inputs path) listed result written := ⟨_, _, rfl⟩
  obtain ⟨rfl, rfl⟩ := Prod.mk.inj (hturn.symm.trans (hdue.runs_takeTurn hwrite))
  obtain ⟨text, map, built, hbuild, htext⟩ := hasText_of_write hwrite
  exact ⟨inputs, listed, text, map, built, hdue, hbuild, htext⟩

theorem HasOne.exists_turn
    {packed : Workspace} (hone : HasOne entries asset list)
    (hturns : Runs (entries.forM (packer.takeTurn (some asset) true)) (forgotten before) (.ok ⟨⟩)
      packed) :
    ∃ front back turn inputs listed text map built,
      entries = front ++ (.text asset, list) :: back ∧
      Runs (front.forM (packer.takeTurn (some asset) true)) (forgotten before) (.ok ⟨⟩) turn ∧
      packer.IsDue (some asset) true turn (.text asset, list) asset path inputs listed ∧
      Runs (packer.build asset inputs path) (madeReady listed path) (.ok (text, map)) built ∧
      packer.inputsOn before.files list = .ok inputs ∧
      packer.buildOn before.files asset inputs path = .ok (text, map) ∧
      packed.files.HasText path (finished asset text map) := by
  obtain ⟨front, back, hsplit⟩ := List.append_of_mem hone.mem
  rw [hsplit] at hturns
  obtain ⟨turn, next, hfront, hturn, hback⟩ := exists_turn_of_forM hturns
  obtain ⟨log, rfl⟩ := hone.exists_log_of_front hne hsplit rfl hfront
  obtain ⟨inputs, listed, text, map, built, hdue, hbuild, htext⟩ := hcan.exists_of_turn hne hturn
  obtain ⟨hinputs, hbuilt, -⟩ := hcan.of_build hdue.listing hbuild
  -- Assets behind this one are not asked for, so their turns leave its file alone.
  have hnot : ∀ other ∈ back, isAsked (some asset) other.1 = false := fun other hother => by
    rw [isAsked_some hne, hone.not_asked_of_back hsplit rfl other hother]
  obtain ⟨log', rfl⟩ := exists_log_of_turns hnot hback
  exact ⟨front, back, _, inputs, listed, text, map, built, hsplit, hfront, hdue, hbuild, hinputs,
    hbuilt.symm, htext⟩

end Through

end Packer

end UrlRebase
