import UrlRebase.Proofs.SteadyRuns

/-!
# Modes of rewriting

The mode decides how a reference that leads to a file is spelt, and nothing else.  In every
mode a token gets the diagnostics and the asset that it has where references are kept, if the
file that it leads to can be read.  Where they are kept, the text that comes out is the text
that was scanned.
-/

namespace UrlRebase

open Work

/-! ## Payloads that are kept -/

namespace Edit

/-- References whose payloads are put back stay as they are. -/
theorem reword_of_raw
    {segments : List Segment} {edits : List Edit} {index start : Nat} {place : Place}
    (hedits : edits.map token = Token.ofSegments index start place segments)
    (hraw : ∀ edit ∈ edits, edit.text = edit.token.raw) : reword edits segments = segments := by
  induction segments generalizing edits index start place with
  | nil => rfl
  | cons segment rest ih =>
      cases segment with
      | reference opening reading =>
          obtain ⟨edit, edits, rfl, htoken, hedits⟩ := List.map_eq_cons_iff.mp hedits
          have htext : edit.text = reading.raw := by
            rw [hraw edit List.mem_cons_self, htoken]
            rfl
          rw [reword, htext,
            ih hedits fun edit' hedit' => hraw edit' (List.mem_cons_of_mem edit hedit')]
      | _ =>
          rw [reword, ih hedits hraw]
          simp

theorem splice_of_raw
    {text : Text} {edits : List Edit} (hedits : edits.map token = Token.scan text)
    (hraw : ∀ edit ∈ edits, edit.text = edit.token.raw) : splice text edits = text := by
  rw [splice_eq hedits, reword_of_raw hedits hraw, Segment.flatMap_written]

end Edit

namespace Rebaser

def withMode (rebaser : Rebaser) (mode : Mode) : Rebaser :=
  { rebaser with options := { rebaser.options with mode } }

/-- Whether a token of a style sheet leads to a file. -/
def Finds (rebaser : Rebaser) (files : FileSystem) (sheet : StyleSheet) (token : Token)
    (path : Text) : Prop :=
  rebaser.options.attemptResolve = true ∧
    ∃ map remarks origin candidates shadowed, readMap sheet = .ok (map, remarks) ∧
      Lineage.origin ⟨map, sheet.sourceName⟩ ⟨token.place.line, token.place.column⟩ =
        .ok origin ∧
      rebaser.leadsTo files sheet ⟨map, sheet.sourceName⟩ origin token =
        .ok (.found path candidates shadowed)

section Token

variable {rebaser : Rebaser} {files : FileSystem} {sheet : StyleSheet} {token : Token}
  {named : Text → Except Failure Text} {mode : Mode}

/-- A token that leads to a file with a name, if anywhere, is settled as where references are
kept, but for its text. -/
theorem settled_keep
    {origin : Origin} {resolution : Resolution} {keepQuery : Bool} {rebased : RebasedToken}
    (hnamed : ∀ path, resolution.path? = some path → ∃ name, named path = .ok name)
    (h : settled origin token resolution (token.rebase named mode keepQuery resolution) =
      .ok rebased) :
    settled origin token resolution (token.rebase named .keep keepQuery resolution) =
        .ok { rebased with text := token.raw } ∧
      (resolution.path? = none ∨ mode = .keep → rebased.text = token.raw) := by
  cases resolution with
  | ignored =>
      obtain rfl := Except.ok.inj h
      exact ⟨rfl, fun _ => rfl⟩
  | notFound candidates =>
      obtain rfl := Except.ok.inj h
      exact ⟨rfl, fun _ => rfl⟩
  | found path candidates shadowed =>
      obtain ⟨name, hname⟩ := hnamed path rfl
      cases mode with
      | absolute =>
          obtain rfl := Except.ok.inj h
          exact ⟨rfl, by simp [Resolution.path?]⟩
      | contentDerived =>
          simp only [Token.rebase, hname, bind, Except.bind, pure, Except.pure] at h
          obtain rfl := Except.ok.inj h
          exact ⟨rfl, by simp [Resolution.path?]⟩
      | keep =>
          obtain rfl := Except.ok.inj h
          exact ⟨rfl, fun _ => rfl⟩

/-- In every mode a token has the diagnostics and the asset that it has where references are
kept, and its payload unless it leads to a file. -/
theorem rebasedAs_keep
    {map : Option SourceMap} {remarks : List Diagnostic} {rebased : RebasedToken}
    (hread : readMap sheet = .ok (map, remarks))
    (hnamed : ∀ path, rebaser.Finds files sheet token path → ∃ name, named path = .ok name)
    (h : (rebaser.withMode mode).rebasedAs named files sheet ⟨map, sheet.sourceName⟩ token =
      .ok rebased) :
    (rebaser.withMode .keep).rebasedAs named files sheet ⟨map, sheet.sourceName⟩ token =
        .ok { rebased with text := token.raw } ∧
      ((¬∃ path, rebaser.Finds files sheet token path) ∨ mode = .keep →
        rebased.text = token.raw) := by
  cases hattempt : rebaser.options.attemptResolve with
  | false =>
      have hattempt' (mode : Mode) :
          (rebaser.withMode mode).options.attemptResolve = false := hattempt
      obtain ⟨origin, horigin, rfl⟩ := (rebasedAs_eq_ok_iff_of_unresolved (hattempt' mode)).mp h
      exact ⟨(rebasedAs_eq_ok_iff_of_unresolved (hattempt' .keep)).mpr ⟨origin, horigin, rfl⟩,
        fun _ => rfl⟩
  | true =>
      have hattempt' (mode : Mode) :
          (rebaser.withMode mode).options.attemptResolve = true := hattempt
      obtain ⟨origin, resolution, outcome, horigin, hresolution, houtcome, rfl⟩ :=
        (rebasedAs_eq_ok_iff (hattempt' mode)).mp h
      have hfinds {path : Text} (hpath : resolution.path? = some path) :
          rebaser.Finds files sheet token path := by
        cases resolution with
        | found path' candidates shadowed =>
            obtain rfl := Option.some.inj hpath
            exact ⟨hattempt, map, remarks, origin, candidates, shadowed, hread, horigin,
              hresolution⟩
        | _ => simp [Resolution.path?] at hpath
      obtain ⟨hkeep, htext⟩ := settled_keep
        (fun path hpath => hnamed path (hfinds hpath)) houtcome
      refine ⟨(rebasedAs_eq_ok_iff (hattempt' .keep)).mpr ⟨origin, resolution, _, horigin,
        hresolution, hkeep, rfl⟩, fun hkept => htext ?_⟩
      rcases hkept with hnone | hmode
      · left
        rw [Option.eq_none_iff_forall_not_mem]
        exact fun path hpath => hnone ⟨path, hfinds hpath⟩
      · exact .inr hmode

end Token

/-- A run in any mode makes of the tokens what one makes that keeps references, with texts of
their own where they lead to files. -/
theorem exists_of_run_keep
    {rebaser : Rebaser} {files : FileSystem} {sheet : StyleSheet} {mode : Mode}
    {result : RebasedSheet} {before after : Workspace}
    (hnames : rebaser.nameFile = Work.digestName)
    (hreadable : ∀ token ∈ Token.scan (rebaser.scannedText sheet), ∀ path,
      rebaser.Finds files sheet token path → (files.read path).isOk = true)
    (hbefore : before.Knows Set.univ files)
    (hruns : Runs ((rebaser.withMode mode).run sheet) before (.ok result) after) :
    after.Knows Set.univ files ∧
    ∃ map remarks rebased,
      Returned (rebaser.withMode mode) sheet map remarks rebased result ∧
      List.Forall₂ (fun token rebased =>
        (rebaser.withMode .keep).rebasedAs files.contentName files sheet
            ⟨map, sheet.sourceName⟩ token = .ok { rebased with text := token.raw } ∧
          ((¬∃ path, rebaser.Finds files sheet token path) ∨ mode = .keep →
            rebased.text = token.raw))
        (Token.scan (rebaser.scannedText sheet)) rebased := by
  have hnamed : (rebaser.withMode mode).NamesAs files.contentName Set.univ files := by
    intro _ path hpath
    rw [show (rebaser.withMode mode).nameFile = Work.digestName from hnames]
    exact gives_digestName hpath
  have hgives : Gives Set.univ files ((rebaser.withMode mode).run sheet) _ :=
    gives_run hnamed fun _ _ _ _ _ path _ => Set.mem_univ path
  obtain ⟨hresult, hafter, -⟩ := hgives.eq_of_runs hbefore hruns
  obtain ⟨map, remarks, rebased, hreturned, htokens⟩ := runAs_eq_ok_iff.mp hresult.symm
  refine ⟨hafter, map, remarks, rebased, hreturned, ?_⟩
  have hmem := (List.forall₂_and_left _ _).mpr ⟨hreadable, htokens⟩
  refine hmem.imp fun token rebased h => rebasedAs_keep hreturned.read ?_ h.2
  intro path hpath
  exact FileSystem.exists_contentName (h.1 path hpath)

/-- What is told of tokens and the files that they name do not depend on their texts. -/
theorem map_told_of_keep
    {result : Token → Except Failure RebasedToken} {tokens : List Token}
    {rebased : List RebasedToken}
    (h : List.Forall₂ (fun token rebased => result token =
      .ok { rebased with text := token.raw }) tokens rebased) :
    rebased.map (fun rebased =>
        (Except.ok (rebased.diagnostics, rebased.asset) : Except Failure _)) =
      tokens.map fun token => (result token).map fun rebased =>
        (rebased.diagnostics, rebased.asset) := by
  induction h with
  | nil => rfl
  | cons hfirst hrest ih => rw [List.map_cons, List.map_cons, ih, hfirst, Except.map]

/-- Two runs that differ in nothing but the mode, on the same files and with whatever is known
of them, find the same assets and tell the same, if the files that references lead to can be
read.  Their texts differ in nothing but the payloads of such references, and the text of a
run that keeps references is the text that was scanned. -/
theorem runs_of_modes
    {rebaser : Rebaser} {files : FileSystem} {sheet : StyleSheet} {mode mode' : Mode}
    {first second : RebasedSheet} {before before' after after' : Workspace}
    (hnames : rebaser.nameFile = Work.digestName)
    (hreadable : ∀ token ∈ Token.scan (rebaser.scannedText sheet), ∀ path,
      rebaser.Finds files sheet token path → (files.read path).isOk = true)
    (hbefore : before.Knows Set.univ files) (hbefore' : before'.Knows Set.univ files)
    (hfirst : Runs ((rebaser.withMode mode).run sheet) before (.ok first) after)
    (hsecond : Runs ((rebaser.withMode mode').run sheet) before' (.ok second) after') :
    second.assets = first.assets ∧ second.diagnostics = first.diagnostics ∧
    (∃ edits edits' : List Edit,
      edits.map Edit.token = Token.scan (rebaser.scannedText sheet) ∧
      edits'.map Edit.token = Token.scan (rebaser.scannedText sheet) ∧
      first.text = Edit.splice (rebaser.scannedText sheet) edits ∧
      second.text = Edit.splice (rebaser.scannedText sheet) edits' ∧
      ∀ edit ∈ edits ++ edits', (¬∃ path, rebaser.Finds files sheet edit.token path) →
        edit.text = edit.token.raw) ∧
    (mode = .keep → first.text = rebaser.scannedText sheet) ∧
    after.Knows Set.univ files := by
  obtain ⟨hafter, map, remarks, rebased, hreturned, htokens⟩ :=
    exists_of_run_keep hnames hreadable hbefore hfirst
  obtain ⟨-, map', remarks', rebased', hreturned', htokens'⟩ :=
    exists_of_run_keep hnames hreadable hbefore' hsecond
  obtain ⟨rfl, rfl⟩ := Prod.mk.inj (Except.ok.inj (hreturned.read.symm.trans hreturned'.read))
  -- Both runs agree, token by token, with the one that keeps references.
  have htold : rebased'.map (fun rebased => (rebased.diagnostics, rebased.asset)) =
      rebased.map (fun rebased => (rebased.diagnostics, rebased.asset)) := by
    have hboth := (map_told_of_keep (htokens'.imp fun _ _ h => h.1)).trans
      (map_told_of_keep (htokens.imp fun _ _ h => h.1)).symm
    have hok : Function.Injective
        (Except.ok : List Diagnostic × Option Text → Except Failure _) := fun _ _ => Except.ok.inj
    refine List.map_injective_iff.mpr hok ?_
    rwa [List.map_map, List.map_map]
  have hdiagnostics : rebased'.flatMap (·.diagnostics) = rebased.flatMap (·.diagnostics) := by
    have hmap := congrArg (List.flatMap Prod.fst) htold
    rwa [List.flatMap_map, List.flatMap_map] at hmap
  have hassets : rebased'.filterMap (·.asset) = rebased.filterMap (·.asset) := by
    have hmap := congrArg (List.filterMap Prod.snd) htold
    rwa [List.filterMap_map, List.filterMap_map] at hmap
  have hedits := RebasedToken.map_token_edits htokens
  have hedits' := RebasedToken.map_token_edits htokens'
  have hkept := RebasedToken.forall₂_edits htokens
  have hkept' := RebasedToken.forall₂_edits htokens'
  refine ⟨?_, ?_, ⟨_, _, hedits, hedits', hreturned.text, hreturned'.text, ?_⟩, ?_, hafter⟩
  · rw [hreturned.assets, hreturned'.assets, hassets]
  · rw [hreturned.diagnostics, hreturned'.diagnostics, hdiagnostics]
  · intro edit hedit hnone
    rcases List.mem_append.mp hedit with hedit | hedit
    · obtain ⟨_, -, ⟨-, htext⟩, heq⟩ := Forall₂.exists_of_mem_left hkept hedit
      exact heq.trans (htext (.inl hnone))
    · obtain ⟨_, -, ⟨-, htext⟩, heq⟩ := Forall₂.exists_of_mem_left hkept' hedit
      exact heq.trans (htext (.inl hnone))
  · intro hmode
    refine hreturned.text.trans (Edit.splice_of_raw hedits fun edit hedit => ?_)
    obtain ⟨_, -, ⟨-, htext⟩, heq⟩ := Forall₂.exists_of_mem_left hkept hedit
    exact heq.trans (htext (.inr hmode))

/-- A rebaser that looks in no other directory than that of a style sheet. -/
def plain : Rebaser := ⟨{}, ⟨[], none, false⟩, Work.digestName⟩

def imageSheet : StyleSheet where
  text := "url(i.png)".text
  path := "/p/a.css".text

def imageFiles : FileSystem :=
  (FileSystem.empty "/".text).place "/p/i.png".text ⟨.empty, 1, true⟩

theorem runs_of_modes_of_image :
    ∃ (first second : RebasedSheet) (after after' : Workspace),
      Runs ((plain.withMode .keep).run imageSheet) { files := imageFiles } (.ok first) after ∧
      Runs ((plain.withMode .contentDerived).run imageSheet) { files := imageFiles } (.ok second)
        after' ∧
      first.text = "url(i.png)".text ∧ second.assets = first.assets ∧
      second.diagnostics = first.diagnostics := by
  have hscan : Token.scan (plain.scannedText imageSheet) =
      [⟨0, 0, ⟨0, 0⟩, ⟨[], .none, "i.png".text, []⟩⟩] := by cbv
  have hreadable : ∀ token ∈ Token.scan (plain.scannedText imageSheet), ∀ path,
      plain.Finds imageFiles imageSheet token path → (imageFiles.read path).isOk = true := by
    rintro token htoken path
      ⟨-, map, remarks, origin, candidates, shadowed, hread, horigin, hleads⟩
    rw [hscan, List.mem_singleton] at htoken
    obtain ⟨rfl, -⟩ := Prod.mk.inj (Except.ok.inj hread)
    obtain rfl := Except.ok.inj horigin
    have hfound : plain.leadsTo imageFiles imageSheet ⟨none, imageSheet.sourceName⟩
        (Lineage.here ⟨none, imageSheet.sourceName⟩ ⟨token.place.line, token.place.column⟩ true)
        token = .ok (.found "/p/i.png".text ["/p/i.png".text] []) := by
      rw [htoken]
      cbv
    obtain ⟨rfl, -, -⟩ := Resolution.found.inj (Except.ok.inj (hfound.symm.trans hleads))
    decide +kernel
  obtain ⟨first, hfirst⟩ := exists_runs_of_isOk ((plain.withMode .keep).run imageSheet)
    { files := imageFiles } (by decide +kernel)
  obtain ⟨second, hsecond⟩ := exists_runs_of_isOk
    ((plain.withMode .contentDerived).run imageSheet) { files := imageFiles } (by decide +kernel)
  obtain ⟨hassets, hdiagnostics, -, hkept, -⟩ := runs_of_modes rfl hreadable
    (Workspace.knows_of_files _ _) (Workspace.knows_of_files _ _) hfirst hsecond
  exact ⟨first, second, _, _, hfirst, hsecond, hkept rfl, hassets, hdiagnostics⟩

end Rebaser

end UrlRebase
