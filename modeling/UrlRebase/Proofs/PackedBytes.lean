import UrlRebase.Proofs.AskedAssets

/-!
# Assets as bytes and as files

An asset is packed to bytes as it is packed to a file: both list the inputs of all assets and
build the one that is asked for.  The one lists all inputs on the files as they are, the other
lists those of later assets on files among which the asset was written.  So a pack that breaks
off has no counterpart that gives bytes; the converse needs that each search directory can be
told, since a file that was just written can keep one from being asked for.
-/

namespace UrlRebase

open Work Workspace FileSystem

theorem Utf8.exists_encode?_of_append {front back : Text} {bytes : ByteArray}
    (h : encode? (front ++ back) = some bytes) : ∃ bytes', encode? front = some bytes' := by
  obtain ⟨characters, hcharacters, -⟩ := Option.map_eq_some_iff.mp h
  rw [List.mapM_append] at hcharacters
  obtain ⟨characters', hfront, -⟩ := Option.bind_eq_some_iff.mp hcharacters
  exact ⟨_, Option.map_eq_some_iff.mpr ⟨characters', hfront, rfl⟩⟩

namespace Packer

variable {packer : Packer} {asset path : Text} {list : Setting} {force : Bool}
  {files : FileSystem} {before after turn : Workspace} {entries : List (Setting × Setting)}

/-! ## Packing to bytes -/

def addedBytes (packer : Packer) (asset : Text) (entry : Setting × Setting) : Work ByteArray := do
  let inputs ← packer.inputsOf entry.2
  if entry.1.same (.text asset) then
    let path ← Work.lift (packer.outputPath (← Work.current) asset)
    let (text, _) ← packer.build asset inputs path
    Work.lift (encoded "utf-8".text text)
  else return ByteArray.empty

/-- The bytes that an entry adds to those of the asset with a name, on some files. -/
def addedBytesOn (packer : Packer) (files : FileSystem) (asset : Text) (entry : Setting × Setting) :
    Except Failure ByteArray := do
  let inputs ← packer.inputsOn files entry.2
  if entry.1.same (.text asset) then
    let path ← packer.outputPath files.current asset
    let (text, _) ← packer.buildOn files asset inputs path
    encoded "utf-8".text text
  else return ByteArray.empty

theorem packedBytes_eq (asset : Text) :
    packer.packedBytes asset "utf-8".text = (do
      forgetFiles
      let bytes ← (← Work.lift packer.entries).mapM (packer.addedBytes asset)
      return bytes.foldl ByteArray.append ByteArray.empty) :=
  rfl

theorem gives_addedBytes (asset : Text) (entry : Setting × Setting) :
    Gives Set.univ files (packer.addedBytes asset entry)
      (packer.addedBytesOn files asset entry) := by
  unfold addedBytes addedBytesOn
  refine (gives_inputsOf fun _ _ => trivial).bind fun inputs _ => ?_
  split
  · refine gives_current.bind_ok (Gives.lift_bind fun path _ => ?_)
    exact (gives_build (drawsWithin_univ inputs)).bind fun ⟨text, _⟩ _ => Gives.of_lift _
  · exact Gives.of_pure _

theorem result_of_packedBytes
    {result : Except Failure ByteArray} (hentries : packer.entries = .ok entries)
    (hruns : Runs (packer.packedBytes asset "utf-8".text) before result after) :
    result = (entries.mapM (packer.addedBytesOn before.files asset)).map fun bytes =>
      bytes.foldl ByteArray.append ByteArray.empty := by
  have hforget : Runs forgetFiles before (.ok ⟨⟩) (forgotten before) := rfl
  have hread : Runs (Work.lift packer.entries) (forgotten before) (.ok entries)
      (forgotten before) := hentries ▸ Runs.of_lift _ _
  have hloop : Gives Set.univ before.files (do
      let bytes ← entries.mapM (packer.addedBytes asset)
      return bytes.foldl ByteArray.append ByteArray.empty) (do
      let bytes ← entries.mapM (packer.addedBytesOn before.files asset)
      return bytes.foldl ByteArray.append ByteArray.empty) :=
    (Gives.mapM fun entry _ => gives_addedBytes asset entry).bind fun bytes _ => Gives.of_pure _
  obtain ⟨after', hruns', -⟩ := hloop (forgotten before) knows_univ_of_log
  rw [packedBytes_eq] at hruns
  rw [(Prod.mk.inj (hruns.symm.trans (hforget.bind (hread.bind hruns')))).1]
  cases entries.mapM (packer.addedBytesOn before.files asset) <;> rfl

/-- What the files tell if an asset can be packed to some bytes: the inputs of all assets, and a
text to which this one is built. -/
structure IsTold (packer : Packer) (files : FileSystem) (entries : List (Setting × Setting))
    (asset : Text) (list : Setting) (path : Text) (bytes : ByteArray) : Prop where
  inputs : ∀ entry ∈ entries, ∃ inputs, packer.inputsOn files entry.2 = .ok inputs
  built : ∃ inputs text map, packer.inputsOn files list = .ok inputs ∧
    packer.buildOn files asset inputs path = .ok (text, map) ∧ Utf8.encode? text = some bytes

theorem addedBytesOn_of_not_asked
    {entry : Setting × Setting} (h : entry.1.same (.text asset) = false) :
    packer.addedBytesOn files asset entry =
      (packer.inputsOn files entry.2).map fun _ => ByteArray.empty := by
  unfold addedBytesOn
  rw [h]
  cases packer.inputsOn files entry.2 <;> rfl

theorem addedBytesOn_eq_ok_iff
    {bytes : ByteArray} (hpath : packer.outputPath files.current asset = .ok path) :
    packer.addedBytesOn files asset (.text asset, list) = .ok bytes ↔
      ∃ inputs text map, packer.inputsOn files list = .ok inputs ∧
        packer.buildOn files asset inputs path = .ok (text, map) ∧
        Utf8.encode? text = some bytes := by
  have hasked : (Setting.text asset).same (.text asset) = true := by simp
  have hencoding : Encoding.ofName? "utf-8".text = some .utf8 := by decide
  have hencoded (text : Text) : encoded "utf-8".text text = .ok bytes ↔
      Utf8.encode? text = some bytes := by
    rw [encoded, hencoding]
    simp only [Encoding.encode]
    cases Utf8.encode? text <;> simp
  unfold addedBytesOn
  simp only [hasked, if_true, hpath]
  constructor
  · intro h
    obtain ⟨inputs, hinputs, h⟩ := Except.bind_eq_ok.mp h
    obtain ⟨_, hplace, h⟩ := Except.bind_eq_ok.mp h
    obtain rfl := Except.ok.inj hplace
    obtain ⟨⟨text, map⟩, hbuilt, h⟩ := Except.bind_eq_ok.mp h
    exact ⟨inputs, text, map, hinputs, hbuilt, (hencoded text).mp h⟩
  · rintro ⟨inputs, text, map, hinputs, hbuilt, hbytes⟩
    exact Except.bind_eq_ok.mpr ⟨inputs, hinputs, Except.bind_eq_ok.mpr ⟨path, rfl,
      Except.bind_eq_ok.mpr ⟨(text, map), hbuilt, (hencoded text).mpr hbytes⟩⟩⟩

/-- Assets that are not asked for add nothing. -/
theorem foldl_addedBytesOn_of_not_asked
    {added : List ByteArray} (hnot : ∀ entry ∈ entries, entry.1.same (.text asset) = false)
    (hadded : entries.mapM (packer.addedBytesOn files asset) = .ok added) (start : ByteArray) :
    added.foldl ByteArray.append start = start := by
  rw [Except.mapM_eq_ok_iff] at hadded
  induction hadded with
  | nil => rfl
  | cons hentry _ ih =>
      obtain ⟨hfirst, hrest⟩ := List.forall_mem_cons.mp hnot
      rw [addedBytesOn_of_not_asked hfirst] at hentry
      obtain ⟨_, -, rfl⟩ := Except.map_eq_ok.mp hentry
      rw [List.foldl_cons, show start.append ByteArray.empty = start from ByteArray.append_empty]
      exact ih hrest

/-- The one asset that is asked for adds all bytes. -/
theorem HasOne.addedBytesOn_eq
    {added : List ByteArray} (hone : HasOne entries asset list)
    (hadded : entries.mapM (packer.addedBytesOn files asset) = .ok added) :
    packer.addedBytesOn files asset (.text asset, list) =
      .ok (added.foldl ByteArray.append ByteArray.empty) := by
  obtain ⟨front, back, hsplit⟩ := List.append_of_mem hone.mem
  rw [hsplit, List.mapM_append] at hadded
  obtain ⟨before, hfront, hadded⟩ := Except.bind_eq_ok.mp hadded
  obtain ⟨own, howns, hadded⟩ := Except.bind_eq_ok.mp hadded
  obtain rfl := Except.ok.inj hadded
  rw [List.mapM_cons] at howns
  obtain ⟨bytes, hbytes, howns⟩ := Except.bind_eq_ok.mp howns
  obtain ⟨behind, hback, howns⟩ := Except.bind_eq_ok.mp howns
  obtain rfl := Except.ok.inj howns
  rw [List.foldl_append, List.foldl_cons,
    foldl_addedBytesOn_of_not_asked (hone.not_asked_of_front hsplit rfl) hfront,
    foldl_addedBytesOn_of_not_asked (hone.not_asked_of_back hsplit rfl) hback, hbytes]
  exact congrArg _ ByteArray.empty_append.symm

theorem HasOne.packed_eq_ok_iff
    {bytes : ByteArray} (hone : HasOne entries asset list)
    (hpath : packer.outputPath files.current asset = .ok path) :
    ((entries.mapM (packer.addedBytesOn files asset)).map fun added =>
        added.foldl ByteArray.append ByteArray.empty) = .ok bytes ↔
      packer.IsTold files entries asset list path bytes := by
  constructor
  · intro h
    obtain ⟨added, hadded, rfl⟩ := Except.map_eq_ok.mp h
    refine ⟨fun entry hentry => ?_,
      (addedBytesOn_eq_ok_iff hpath).mp (hone.addedBytesOn_eq hadded)⟩
    obtain ⟨_, -, hown⟩ := Forall₂.exists_of_mem_left (Except.mapM_eq_ok_iff.mp hadded) hentry
    obtain ⟨inputs, hinputs, -⟩ := Except.bind_eq_ok.mp hown
    exact ⟨inputs, hinputs⟩
  · intro h
    have howns := (addedBytesOn_eq_ok_iff hpath).mpr h.built
    obtain ⟨added, hadded, -⟩ := Except.exists_mapM fun entry hentry =>
      show ∃ bytes, packer.addedBytesOn files asset entry = .ok bytes ∧ True by
        cases hasked : entry.1.same (.text asset) with
        | true =>
            rw [hone.eq_of_asked hentry hasked]
            exact ⟨bytes, howns, trivial⟩
        | false =>
            obtain ⟨inputs, hinputs⟩ := h.inputs entry hentry
            rw [addedBytesOn_of_not_asked hasked, hinputs]
            exact ⟨_, rfl, trivial⟩
    rw [hone.addedBytesOn_eq hadded] at howns
    rw [hadded]
    exact howns

/-! ## Bytes and forced packs -/

section Forced

variable {front back : List (Setting × Setting)} {entry : Setting × Setting} {error : Failure}
  (hone : HasOne entries asset list) (hne : asset ≠ [])
  (hcan : packer.CanWrite before.files asset list path)
include hone hne hcan

/-- If the files tell the bytes of an asset, then a forced pack of it does not break off. -/
theorem IsTold.not_stopsAt
    {bytes : ByteArray} (htold : packer.IsTold before.files entries asset list path bytes)
    (hentries : packer.entries = .ok entries) :
    ¬ packer.StopsAt (some asset) true before front entry back error after := by
  rintro ⟨hsplit, turn, hfront, hbreaks⟩
  obtain rfl := Except.ok.inj (hentries.symm.trans hsplit)
  cases hbreaks with
  | listing hlisting =>
      obtain ⟨inputs, hinputs⟩ := htold.inputs entry (by simp)
      -- The files have grown since, so what could be listed at first still can.
      obtain ⟨inputs', hinputs'⟩ := exists_inputsOn_of_grows (grows_of_turns hfront) hinputs
      cases ((tells_inputsOf entry.2).eq_of_runs hlisting).1.trans hinputs'
  | building hdue hbuild =>
      have hasked := hdue.asked
      rw [isAsked_some hne] at hasked
      obtain rfl := hone.eq_of_asked (by simp) hasked
      obtain rfl := Except.ok.inj hdue.named
      obtain ⟨log, rfl⟩ := hone.exists_log_of_front hne rfl rfl hfront
      obtain rfl := Except.ok.inj (hcan.placed.symm.trans hdue.placed)
      obtain ⟨hinputs, hfailed, -⟩ := hcan.of_build hdue.listing hbuild
      obtain ⟨inputs, text, map, hinputs', hbuilt, -⟩ := htold.built
      obtain rfl := Except.ok.inj (hinputs'.symm.trans hinputs)
      cases hfailed.trans hbuilt

/-- If a forced pack of an asset comes through, then the files tell its bytes. -/
theorem HasOne.exists_isTold
    {packed : Workspace} (hsearch : packer.TellsSearch)
    (hturns : Runs (entries.forM (packer.takeTurn (some asset) true)) (forgotten before) (.ok ⟨⟩)
      packed) :
    ∃ bytes, packer.IsTold before.files entries asset list path bytes := by
  have hinputs (entry : Setting × Setting) (hentry : entry ∈ entries) :
      ∃ inputs, packer.inputsOn before.files entry.2 = .ok inputs := by
    obtain ⟨front, back, hsplit⟩ := List.append_of_mem hentry
    rw [hsplit] at hturns
    obtain ⟨turn, next, -, hturn, -⟩ := exists_turn_of_forM hturns
    obtain ⟨inputs, listed, hlisting, -⟩ := exists_of_bind hturn
    exact exists_inputsOn_of_told hsearch ((tells_inputsOf entry.2).eq_of_runs hlisting).1.symm _
  obtain ⟨-, -, -, inputs, -, text, map, -, -, -, -, -, hlisted, hbuilt, whole, hwhole, -⟩ :=
    hone.exists_turn hne hcan hturns
  obtain ⟨bytes, hbytes⟩ : ∃ bytes, Utf8.encode? text = some bytes := by
    cases map with
    | none => exact ⟨whole, hwhole⟩
    | some map => exact Utf8.exists_encode?_of_append hwhole
  exact ⟨bytes, hinputs, inputs, text, map, hlisted, hbuilt, hbytes⟩

end Forced

/-- Two style sheets, the second one of the first, which is looked for among the packed ones before
it is looked for in some last directories. -/
def layeredEntries : List (Setting × Setting) :=
  [(.text "a.css".text, .text "x.css".text), (.text "b.css".text, .text "a.css".text)]

def layered (last : List Setting) : Packer :=
  { ofNames [] with
    search := .list none (.text "src".text :: .text "out".text :: last)
    assets := .table none layeredEntries }

def layeredFiles : FileSystem :=
  (FileSystem.empty "/p".text).place "/p/src/x.css".text ⟨"x\x7b\x7d".toUTF8, 1, true⟩

def layeredInput : Input where
  name := "x.css".text
  path := "/p/src/x.css".text
  processors := [.text "cssrebase.processors.rewrite.process".text]
  depends := .list none []

variable {last : List Setting}

theorem hasOne_layered : HasOne layeredEntries "a.css".text (.text "x.css".text) :=
  ⟨by decide +kernel, List.mem_cons_self⟩

theorem inputsOn_layered :
    (layered last).inputsOn layeredFiles (.text "x.css".text) = .ok [layeredInput] := by
  cbv

theorem buildOn_layered :
    (layered last).buildOn layeredFiles "a.css".text [layeredInput] "/p/out/a.css".text =
      .ok ("x\x7b\x7d".text, none) := by
  have hbuilt : ((layered []).buildOn layeredFiles "a.css".text [layeredInput]
      "/p/out/a.css".text).toOption.map (fun built => (built.1, built.2.isNone)) =
        some ("x\x7b\x7d".text, true) := by
    decide +kernel
  change (layered []).buildOn layeredFiles "a.css".text [layeredInput] "/p/out/a.css".text = _
  cases hresult : (layered []).buildOn layeredFiles "a.css".text [layeredInput]
      "/p/out/a.css".text with
  | error error => simp [hresult, Except.toOption] at hbuilt
  | ok built =>
      rw [hresult] at hbuilt
      obtain ⟨htext, hmap⟩ := Prod.mk.inj (Option.some.inj hbuilt)
      exact congrArg _ (Prod.ext htext (Option.isNone_iff_eq_none.mp hmap))

theorem canWrite_layered :
    (layered last).CanWrite layeredFiles "a.css".text (.text "x.css".text)
      "/p/out/a.css".text where
  placed := rfl
  made := by unfold CanMake; decide +kernel
  stored := by
    intro inputs text map hinputs hbuilt
    obtain rfl := Except.ok.inj (inputsOn_layered.symm.trans hinputs)
    obtain ⟨rfl, rfl⟩ := Prod.mk.inj (Except.ok.inj (buildOn_layered.symm.trans hbuilt))
    exact ⟨_, _, rfl, rfl⟩

theorem tellsSearch_layered : (layered []).TellsSearch := by
  intro roots hroots root hroot
  obtain rfl := Option.some.inj hroots
  rcases List.mem_pair.mp hroot with rfl | rfl
  · exact ⟨_, rfl⟩
  · exact ⟨_, rfl⟩

end Packer

end UrlRebase
