import UrlRebase.Proofs.RelativeWays
import UrlRebase.Proofs.RetracedMaps
import UrlRebase.Proofs.RewriteModes

/-!
# Second runs

A run that spells files by their absolute paths, without a root directory, leaves nothing to
do for a second run on what it returned: a reference that was spelt anew leads to no file now,
and any other one is looked up in the directory where the first run looked it up.  Where the
second run looks is told by the map that the first run made, so this takes that the start of
the reference is traced back to where it came from, and that the style sheet's own name, which
the map lists as a source, leads to the style sheet's directory.
-/

namespace UrlRebase

open Work

/-! ## Payloads with absolute paths -/

theorem Escape.head?_escape_of_absolute
    {path : Text} (h : Path.isAbsolute path = true) (quote : Quote) :
    (escape quote path).head? = some (.char '/') := by
  obtain ⟨rest, rfl⟩ : ∃ rest, path = .char '/' :: rest := by
    cases path with
    | nil => simp [Path.isAbsolute] at h
    | cons c rest =>
        obtain rfl : c = .char '/' := by simpa [Path.isAbsolute] using h
        exact ⟨rest, rfl⟩
  cases quote <;> rfl

theorem Payload.head?_path_ofText
    {raw : Text} (h : raw.head? = some (.char '/')) :
    (Payload.ofText raw).path.head? = some (.char '/') := by
  obtain ⟨rest, rfl⟩ : ∃ rest, raw = .char '/' :: rest := by
    cases raw with
    | nil => simp at h
    | cons c rest => exact ⟨rest, by simpa using h⟩
  rfl

/-- A payload that was given an absolute path names no file where no root is known. -/
theorem Token.namesNoFile_withPath
    {path : Text} (h : Path.isAbsolute path = true) (token : Token) (keepQuery : Bool) :
    namesNoFile (Payload.ofText (token.withPath keepQuery path)).path none = true := by
  have hhead : (token.withPath keepQuery path).head? = some (.char '/') := by
    rw [Token.withPath, List.append_assoc, List.head?_append,
      Escape.head?_escape_of_absolute h, Option.some_or]
  have habsolute : Path.isAbsolute (Payload.ofText (token.withPath keepQuery path)).path = true :=
    decide_eq_true (Payload.head?_path_ofText hhead)
  simp [namesNoFile, habsolute]

namespace SearchPath

theorem isAbsolute_of_candidates
    {searchPath : SearchPath} {current directory path : Text} {tried : List Text}
    (hcurrent : Path.isAbsolute current = true)
    (h : searchPath.candidates current directory path = .ok tried) :
    ∀ candidate ∈ tried, Path.isAbsolute candidate = true := by
  have habsolute (path : Text) : Path.isAbsolute (Path.absolute current path) = true :=
    Path.isAbsolute_absolute hcurrent path
  unfold candidates at h
  simp only at h
  split at h
  · obtain rfl := Except.ok.inj h
    intro candidate hcandidate
    obtain ⟨root, -, rfl⟩ := List.mem_map.mp hcandidate
    exact habsolute _
  · split at h
    · split at h
      · cases h
      · obtain rfl := Except.ok.inj h
        intro candidate hcandidate
        rw [List.mem_singleton.mp hcandidate]
        exact habsolute _
    · obtain rfl := Except.ok.inj h
      intro candidate hcandidate
      rw [List.mem_singleton.mp hcandidate]
      exact habsolute _

/-- Every file that a payload leads to has an absolute path. -/
theorem isAbsolute_of_answer
    {searchPath : SearchPath} {files : FileSystem} {directory : Text} {payload : Payload}
    {resolution : Resolution} (hcurrent : Path.isAbsolute files.current = true)
    (h : searchPath.answer files directory payload = .ok resolution) :
    ∀ path, resolution.path? = some path → Path.isAbsolute path = true := by
  have hstays : searchPath.StaysIn {path | Path.isAbsolute path = true} files.current directory
      payload.path :=
    fun _ hcandidates => isAbsolute_of_candidates hcurrent hcandidates
  exact Rebaser.path?_mem_of_answer hstays h

end SearchPath

/-! ## Directories -/

namespace StyleSheet

/-- What a run on a style sheet returned, as a style sheet to rebase under any name as a
source. -/
def again (sheet : StyleSheet) (result : RebasedSheet) (source : Text) : StyleSheet where
  text := result.text
  path := sheet.path
  map := result.map.map .map
  source

/-- Whether the name of a style sheet as a source leads from a root to its directory. -/
def Located (sheet : StyleSheet) (current : Text) (root : Json) : Prop :=
  directoryOfSource current sheet.sourceName (sheet.directory current) root =
    .ok (sheet.directory current)

/-- A style sheet with an absolute path and no other name is located from any root. -/
theorem located_of_absolute
    {sheet : StyleSheet} (hsource : sheet.source = [])
    (hpath : Path.isAbsolute sheet.path = true) (current : Text) (root : Json) :
    sheet.Located current root := by
  have hname : sheet.sourceName = sheet.path := by rw [sourceName, if_pos hsource]
  have hscheme : behindScheme? sheet.path = none := by
    cases hsheet : sheet.path with
    | nil => rfl
    | cons c rest =>
        obtain rfl : c = .char '/' := by simpa [Path.isAbsolute, hsheet] using hpath
        rfl
  have hsourcePath : sourcePath sheet.path = .ok sheet.path := by rw [sourcePath, hscheme]
  have hunder : underRoot root sheet.path = .ok sheet.path := by simp [underRoot, hpath]
  have hjoin : Path.join (sheet.directory current) sheet.path = sheet.path := by
    rw [Path.join, if_pos hpath]
  rw [Located, hname, directoryOfSource, hsourcePath]
  simp only [Except.mapError, bind, Except.bind, hunder, pure, Except.pure, hjoin]
  rfl

end StyleSheet

namespace Rebaser

variable {rebaser : Rebaser} {sheet : StyleSheet} {lineage : Lineage} {origin : Origin}
  {position : Position} {current : Text}

theorem source_of_unmapped
    (h : lineage.origin position = .ok origin)
    (hmapped : lineage.map = none ∨ origin.mapped = false) : origin.source = lineage.source := by
  obtain ⟨map, own⟩ := lineage
  cases map with
  | none =>
      obtain rfl := Except.ok.inj h
      rfl
  | some map =>
      obtain ⟨origin', -, ⟨htrue, -⟩ | ⟨-, hsource⟩⟩ := Lineage.origin_of_renamed h own
      · simp [htrue] at hmapped
      · exact hsource

/-- If the text's own name leads to its directory, a reference is relative to the directory of
its source, whether it is mapped or not. -/
theorem referenceDirectory_of_located
    (horigin : lineage.origin position = .ok origin)
    (hlocated : origin.source = lineage.source →
      directoryOfSource current origin.source (sheet.directory current) lineage.root =
        .ok (sheet.directory current)) :
    referenceDirectory current sheet lineage origin =
      directoryOfSource current origin.source (sheet.directory current) lineage.root := by
  unfold referenceDirectory
  split
  · rename_i hmap
    exact (hlocated (source_of_unmapped horigin (.inl hmap))).symm
  · rename_i map hmap
    split
    · rw [Lineage.root, hmap]
      rfl
    · rename_i hmapped
      exact (hlocated (source_of_unmapped horigin (.inr (by simpa using hmapped)))).symm

/-- Where an edited map traces a place back to where it came from, a second run takes a
reference there to be relative to the directory that it was relative to. -/
theorem referenceDirectory_again
    {edited : SourceMap} {position' : Position} {after : Origin} {result : RebasedSheet}
    (hsource : lineage.source = sheet.sourceName) (hroot : edited.root = lineage.root)
    (horigin : lineage.origin position = .ok origin)
    (hafter : Lineage.origin ⟨some edited, lineage.source⟩ position' = .ok after)
    (hsame : after.SamePlace origin)
    (hlocated : origin.source = lineage.source → sheet.Located current lineage.root)
    (source : Text) :
    ∃ origin', Lineage.origin ⟨some edited, (sheet.again result source).sourceName⟩ position' =
        .ok origin' ∧
      referenceDirectory current (sheet.again result source)
          ⟨some edited, (sheet.again result source).sourceName⟩ origin' =
        referenceDirectory current sheet lineage origin := by
  have hown : origin.source = lineage.source →
      directoryOfSource current origin.source (sheet.directory current) lineage.root =
        .ok (sheet.directory current) := by
    intro heq
    rw [heq, hsource]
    exact hlocated heq
  obtain ⟨origin', horigin', hcases⟩ :=
    Lineage.origin_of_renamed hafter (sheet.again result source).sourceName
  refine ⟨origin', horigin', ?_⟩
  rw [referenceDirectory_of_located horigin hown]
  rcases hcases with ⟨hmapped, rfl⟩ | ⟨hmapped, hafterSource⟩
  · simp only [referenceDirectory, hmapped, if_true, hroot, hsame.1]
    rfl
  · rw [hown (hsame.1.symm.trans hafterSource)]
    simp only [referenceDirectory, hmapped, Bool.false_eq_true, if_false]
    rfl

/-! ## References -/

end Rebaser

namespace Diagnostic

def missing (diagnostics : List Diagnostic) : Nat :=
  diagnostics.countP (·.kind = .assetNotFound)

theorem missing_append (left right : List Diagnostic) :
    missing (left ++ right) = missing left + missing right :=
  List.countP_append

theorem missing_eq_zero
    {diagnostics : List Diagnostic}
    (h : ∀ diagnostic ∈ diagnostics, diagnostic.kind ≠ .assetNotFound) : missing diagnostics = 0 :=
  List.countP_eq_zero.mpr fun diagnostic hdiagnostic => by simpa using h diagnostic hdiagnostic

end Diagnostic

namespace Rebaser

open Diagnostic (missing)

theorem missing_unmapped (sheet : StyleSheet) (origin : Origin) (token : Token) :
    missing (unmappedDiagnostics sheet origin token) = 0 := by
  refine Diagnostic.missing_eq_zero fun diagnostic hdiagnostic => ?_
  rw [kind_unmappedDiagnostics hdiagnostic]
  simp

section Token

variable {rebaser : Rebaser} {files : FileSystem} {sheet sheet' : StyleSheet}
  {lineage lineage' : Lineage} {token token' : Token} {named : Text → Except Failure Text}
  {rebased : RebasedToken}

/-- A token that names files by their absolute paths keeps its payload, or leads to a file. -/
theorem settled_absolute_cases
    {origin : Origin} {resolution : Resolution} {keepQuery : Bool} {outcome : RebasedToken}
    (h : settled origin token resolution (token.rebase named .absolute keepQuery resolution) =
      .ok outcome) :
    (resolution = .ignored ∧ outcome = { text := token.raw }) ∨
    (∃ candidates, resolution = .notFound candidates ∧ outcome =
      { text := token.raw, diagnostics := [notFoundDiagnostic origin token candidates] }) ∨
    ∃ path, resolution.path? = some path ∧ outcome.text = token.withPath keepQuery path ∧
      missing outcome.diagnostics = 0 := by
  cases resolution with
  | ignored => exact .inl ⟨rfl, (Except.ok.inj h).symm⟩
  | notFound candidates => exact .inr (.inl ⟨candidates, rfl, (Except.ok.inj h).symm⟩)
  | found path candidates shadowed =>
      obtain rfl := Except.ok.inj h
      refine .inr (.inr ⟨path, rfl, rfl,
        Diagnostic.missing_eq_zero fun diagnostic hdiagnostic => ?_⟩)
      rw [kind_ambiguousDiagnostics hdiagnostic]
      simp

theorem isRebased_of_rebasedAs
    (hmode : rebaser.options.mode = .absolute) (hcurrent : Path.isAbsolute files.current = true)
    (h : rebaser.rebasedAs named files sheet lineage token = .ok rebased) :
    (⟨token, rebased.text⟩ : Edit).IsRebased := by
  cases hattempt : rebaser.options.attemptResolve with
  | false =>
      obtain ⟨origin, -, rfl⟩ := (rebasedAs_eq_ok_iff_of_unresolved hattempt).mp h
      exact .inl rfl
  | true =>
      obtain ⟨origin, resolution, outcome, -, hleads, hsettled, rfl⟩ :=
        (rebasedAs_eq_ok_iff hattempt).mp h
      rw [hmode] at hsettled
      rcases settled_absolute_cases hsettled with ⟨-, rfl⟩ | ⟨_, -, rfl⟩ | ⟨path, hpath, htext, -⟩
      · exact .inl rfl
      · exact .inl rfl
      · obtain ⟨directory, -, hanswer⟩ := Except.bind_eq_ok.mp hleads
        have habsolute := SearchPath.isAbsolute_of_answer hcurrent hanswer path hpath
        have hne : path ≠ [] := by
          rintro rfl
          simp [Path.isAbsolute] at habsolute
        simp only [htext]
        exact isRebased_withPath hne _

/-- A token that a run made of another one is left as it is by a second run that takes it to be
relative to the same directory, and with as many missing files. -/
theorem exists_rebasedAs_again
    (hmode : rebaser.options.mode = .absolute) (hroot : rebaser.searchPath.root = none)
    (hcurrent : Path.isAbsolute files.current = true)
    (h : rebaser.rebasedAs named files sheet lineage token = .ok rebased)
    (hraw : token'.raw = rebased.text)
    (hdirectory : ∀ origin,
      lineage.origin ⟨token.place.line, token.place.column⟩ = .ok origin →
      ∃ origin', lineage'.origin ⟨token'.place.line, token'.place.column⟩ = .ok origin' ∧
        referenceDirectory files.current sheet' lineage' origin' =
          referenceDirectory files.current sheet lineage origin) :
    ∃ rebased', rebaser.rebasedAs named files sheet' lineage' token' = .ok rebased' ∧
      rebased'.text = token'.raw ∧
      missing rebased'.diagnostics = missing rebased.diagnostics := by
  cases hattempt : rebaser.options.attemptResolve with
  | false =>
      obtain ⟨origin, horigin, rfl⟩ := (rebasedAs_eq_ok_iff_of_unresolved hattempt).mp h
      obtain ⟨origin', horigin', -⟩ := hdirectory origin horigin
      refine ⟨_, (rebasedAs_eq_ok_iff_of_unresolved hattempt).mpr ⟨origin', horigin', rfl⟩, rfl, ?_⟩
      simp only [missing_unmapped]
  | true =>
      obtain ⟨origin, resolution, outcome, horigin, hleads, hsettled, rfl⟩ :=
        (rebasedAs_eq_ok_iff hattempt).mp h
      obtain ⟨origin', horigin', hsame⟩ := hdirectory origin horigin
      obtain ⟨directory, hfrom, hanswer⟩ := Except.bind_eq_ok.mp hleads
      rw [hmode] at hsettled
      -- The second run finds nothing, and misses what the first one missed.
      obtain ⟨resolution', outcome', hanswer', hsettled', htext, hmissing⟩ :
          ∃ resolution' outcome',
            rebaser.searchPath.answer files directory token'.payload = .ok resolution' ∧
            settled origin' token' resolution' (token'.rebase named .absolute
              rebaser.options.keepQuery resolution') = .ok outcome' ∧
            outcome'.text = token'.raw ∧
            missing outcome'.diagnostics = missing outcome.diagnostics := by
        rcases settled_absolute_cases hsettled with ⟨rfl, rfl⟩ | ⟨candidates, rfl, rfl⟩ |
          ⟨path, hpath, htext, hmissing⟩
        · have hpayload : token'.payload = token.payload := congrArg Payload.ofText hraw
          exact ⟨.ignored, _, hpayload ▸ hanswer, rfl, rfl, rfl⟩
        · have hpayload : token'.payload = token.payload := congrArg Payload.ofText hraw
          exact ⟨.notFound candidates, _, hpayload ▸ hanswer, rfl, rfl, rfl⟩
        · have hignored := Token.namesNoFile_withPath
            (SearchPath.isAbsolute_of_answer hcurrent hanswer path hpath) token
            rebaser.options.keepQuery
          rw [← htext, ← hraw, ← hroot] at hignored
          exact ⟨.ignored, _, if_pos hignored, rfl, rfl, hmissing.symm⟩
      refine ⟨_, (rebasedAs_eq_ok_iff hattempt).mpr ⟨origin', resolution', outcome', horigin',
        Except.bind_eq_ok.mpr ⟨directory, hsame.trans hfrom, hanswer'⟩, hmode ▸ hsettled', rfl⟩,
        htext, ?_⟩
      simp only [Diagnostic.missing_append, missing_unmapped, hmissing]

end Token

/-! ## Style sheets -/

end Rebaser

theorem Forall₂.exists_both
    {α β γ δ : Type} {r : α → β → Prop} {s : α → γ → Prop} {p : β → δ → Prop} {q : γ → δ → Prop}
    {left : List α} {middle : List β} {right : List γ} (hr : List.Forall₂ r left middle)
    (hs : List.Forall₂ s left right)
    (h : ∀ a ∈ left, ∀ b c, r a b → s a c → ∃ d, p b d ∧ q c d) :
    ∃ last, List.Forall₂ p middle last ∧ List.Forall₂ q right last := by
  induction hr generalizing right with
  | nil =>
      cases hs
      exact ⟨[], .nil, .nil⟩
  | cons hfirst hrest ih =>
      cases hs with
      | cons hfirst' hrest' =>
          obtain ⟨d, hp, hq⟩ := h _ List.mem_cons_self _ _ hfirst hfirst'
          obtain ⟨last, hps, hqs⟩ :=
            ih hrest' fun a ha => h a (List.mem_cons_of_mem _ ha)
          exact ⟨d :: last, .cons hp hps, .cons hq hqs⟩

namespace Edit

/-- The edits by which a text becomes another one, reference by reference. -/
def between (text output : Text) : List Edit :=
  (Token.scan text).zipWith (fun token token' => ⟨token, token'.raw⟩) (Token.scan output)

theorem zipWith_landed
    {all edits : List Edit} {tokens : List Token} (h : List.Forall₂ (Landed all) edits tokens) :
    (edits.map token).zipWith (fun token token' => (⟨token, token'.raw⟩ : Edit)) tokens =
      edits := by
  induction h with
  | nil => rfl
  | cons hfirst hrest ih =>
      rw [List.map_cons, List.zipWith_cons_cons, ih, Token.raw, hfirst.reading]

/-- The edits that were made are read off the text that came out. -/
theorem between_splice
    {text : Text} {edits : List Edit} (hedits : edits.map token = Token.scan text)
    (hfits : ∀ edit ∈ edits, edit.Fits) : between text (splice text edits) = edits := by
  rw [between, ← hedits]
  exact zipWith_landed (landed_scan_splice hedits hfits)

end Edit

namespace Rebaser

open Diagnostic (missing)

section Run

variable {rebaser : Rebaser} {files : FileSystem} {sheet : StyleSheet} {first : RebasedSheet}
  {map : Option SourceMap} {remarks : List Diagnostic} {named : Text → Except Failure Text}

theorem sound_of_readMap
    (hready : ∀ ready, sheet.map = some (.map ready) → ready.Accepted)
    (h : readMap sheet = .ok (map, remarks)) (own : Text) : Lineage.Sound ⟨map, own⟩ := by
  rintro found hfound
  obtain rfl : map = some found := hfound
  unfold readMap at h
  split at h
  · cases h
  · rename_i given hgiven
    split at h
    · rename_i loaded hload
      obtain rfl := Option.some.inj (Prod.mk.inj (Except.ok.inj h)).1
      by_cases hmap : ∃ ready, given = .map ready
      · obtain ⟨ready, rfl⟩ := hmap
        obtain rfl := Except.ok.inj hload
        exact hready _ hgiven
      · exact ⟨given, fun ready heq => hmap ⟨ready, heq⟩, hload⟩
    · cases h
    · cases h

theorem missing_of_readMap (h : readMap sheet = .ok (map, remarks)) : missing remarks = 0 := by
  refine Diagnostic.missing_eq_zero fun remark hremark => ?_
  rw [((remarks_of_readMap h).2 remark hremark).1]
  simp

/-- What became of tokens, with as many missing files each, misses as many in all. -/
theorem missing_flatMap
    {rebased rebased' : List RebasedToken}
    (h : List.Forall₂ (fun rebased rebased' : RebasedToken =>
      missing rebased'.diagnostics = missing rebased.diagnostics) rebased rebased') :
    missing (rebased'.flatMap (·.diagnostics)) = missing (rebased.flatMap (·.diagnostics)) := by
  induction h with
  | nil => rfl
  | cons hfirst hrest ih =>
      rw [List.flatMap_cons, List.flatMap_cons, Diagnostic.missing_append,
        Diagnostic.missing_append, hfirst, ih]

/-- The map that a run makes is the one of the edited text, or the text's own one if there is
no reference. -/
theorem outgoingMap_cases
    {text : Text} {edits : List Edit} {lineage : Lineage} {outgoing : Option SourceMap}
    (hmaps : rebaser.options.sourceMap = true)
    (h : rebaser.outgoingMap text edits lineage = .ok outgoing) :
    ∃ map, outgoing = some map ∧ (edits = [] ∧ lineage.map = some map ∨
      Edit.editedMap text edits lineage rebaser.options.granularity = .ok map) := by
  unfold outgoingMap at h
  rw [hmaps] at h
  simp only [Bool.not_true, Bool.false_eq_true, if_false] at h
  split at h
  · rename_i map hmap
    obtain rfl := Except.ok.inj h
    exact ⟨map, rfl, .inl ⟨rfl, hmap⟩⟩
  · rename_i edits _ _ _
    rw [Except.mapError_eq_ok] at h
    cases hedited : Edit.editedMap text edits lineage rebaser.options.granularity with
    | error error => simp [hedited, Except.map] at h
    | ok edited =>
        rw [hedited] at h
        exact ⟨edited, (Except.ok.inj h).symm, .inr rfl⟩

theorem exists_outgoingMap
    {lineage : Lineage} (h : lineage.Traceable) (rebaser : Rebaser) (text : Text)
    (edits : List Edit) :
    ∃ outgoing, rebaser.outgoingMap text edits lineage = .ok outgoing := by
  obtain ⟨edited, hedited⟩ :=
    Edit.exists_editedMap h text edits rebaser.options.granularity
  unfold outgoingMap
  split
  · exact ⟨_, rfl⟩
  · split
    · exact ⟨_, rfl⟩
    · exact ⟨some edited, by rw [hedited]; rfl⟩

/-- A run that leaves every reference as it is returns the text that it scanned. -/
theorem exists_runAs_of_raw
    {rebased : List RebasedToken} (hread : readMap sheet = .ok (map, remarks))
    (htraceable : Lineage.Traceable ⟨map, sheet.sourceName⟩)
    (htokens : List.Forall₂
      (fun token rebased => rebaser.rebasedAs named files sheet ⟨map, sheet.sourceName⟩ token =
        .ok rebased ∧ rebased.text = token.raw)
      (Token.scan (rebaser.scannedText sheet)) rebased) :
    ∃ result, rebaser.runAs named files sheet = .ok result ∧
      result.text = rebaser.scannedText sheet ∧
      result.diagnostics = remarks ++ rebased.flatMap (·.diagnostics) := by
  have hedits := RebasedToken.map_token_edits htokens
  have hsplice := Edit.splice_of_raw hedits fun edit hedit => by
    obtain ⟨rebased, -, ⟨-, hraw⟩, htext⟩ :=
      Forall₂.exists_of_mem_left (RebasedToken.forall₂_edits htokens) hedit
    exact htext.trans hraw
  obtain ⟨outgoing, houtgoing⟩ := exists_outgoingMap htraceable rebaser
    (rebaser.scannedText sheet)
    (RebasedToken.edits (Token.scan (rebaser.scannedText sheet)) rebased)
  have hlength := congrArg List.length hedits
  rw [List.length_map] at hlength
  refine ⟨⟨rebaser.scannedText sheet, outgoing, (rebased.filterMap (·.asset)).eraseDups,
    remarks ++ rebased.flatMap (·.diagnostics)⟩, runAs_eq_ok_iff.mpr ⟨map, remarks, rebased,
    ⟨hread, ?_, houtgoing, hsplice.symm, rfl, rfl⟩, htokens.imp fun _ _ h => h.1⟩, rfl, rfl⟩
  unfold checkCount
  simp only
  rw [if_pos hlength.symm]

/-- Whether the references that a run on a style sheet edited are looked for by a second run
where they were looked for by the first: no anchor is overridden, and the name of the style
sheet leads to its directory if a reference comes from it. -/
structure Retraceable (rebaser : Rebaser) (sheet : StyleSheet) (current : Text)
    (map : Option SourceMap) (edits : List Edit) : Prop where
  kept : ∀ edit ∈ edits,
    ¬Edit.Overridden (rebaser.scannedText sheet) edits ⟨map, sheet.sourceName⟩
      edit.token.place.line edit.token.place.column
  located : ∀ edit ∈ edits, ∀ origin,
    Lineage.origin ⟨map, sheet.sourceName⟩
        ⟨edit.token.place.line, edit.token.place.column⟩ = .ok origin →
      origin.source = sheet.sourceName →
        sheet.Located current (Lineage.root ⟨map, sheet.sourceName⟩)

/-- What a run made of an edited token is left as it is by a second run. -/
theorem exists_rebasedAs_of_landed
    {edits : List Edit} {edit : Edit} {token : Token} {rebased : RebasedToken}
    {edited : SourceMap} (hmode : rebaser.options.mode = .absolute)
    (hroot : rebaser.searchPath.root = none) (hcurrent : Path.isAbsolute files.current = true)
    (hsound : Lineage.Sound ⟨map, sheet.sourceName⟩)
    (hretraceable : rebaser.Retraceable sheet files.current map edits)
    (hedits : edits.map Edit.token = Token.scan (rebaser.scannedText sheet))
    (hfits : ∀ edit ∈ edits, edit.Fits) (hedit : edit ∈ edits)
    (hedited : Edit.editedMap (rebaser.scannedText sheet) edits ⟨map, sheet.sourceName⟩
      rebaser.options.granularity = .ok edited)
    (hlanded : Edit.Landed edits edit token)
    (hrebased : rebaser.rebasedAs named files sheet ⟨map, sheet.sourceName⟩ edit.token =
      .ok rebased)
    (htext : edit.text = rebased.text) (source : Text) :
    ∃ rebased', rebaser.rebasedAs named files (sheet.again first source)
        ⟨some edited, (sheet.again first source).sourceName⟩ token = .ok rebased' ∧
      rebased'.text = token.raw ∧
      missing rebased'.diagnostics = missing rebased.diagnostics := by
  have hraw : token.raw = rebased.text := by rw [Token.raw, hlanded.reading, htext]
  have hplace : (⟨token.place.line, token.place.column⟩ : Position) =
      Edit.moved edits ⟨edit.token.place.line, edit.token.place.column⟩ := by
    rw [hlanded.line, hlanded.column]
    rfl
  refine exists_rebasedAs_again hmode hroot hcurrent hrebased hraw fun origin horigin => ?_
  obtain ⟨after, hafter, hsame⟩ := Edit.exists_samePlace hedits
    (fun edit hedit => (hfits edit hedit).nonempty) hsound hedited hedit horigin
    (hretraceable.kept edit hedit)
  rw [hplace]
  exact referenceDirectory_again rfl (Edit.root_editedMap hedited) horigin hafter hsame
    (hretraceable.located edit hedit origin horigin) source

/-- On the same files, a second run on what a run returned leaves it as it is. -/
theorem exists_runAs_again
    (hmode : rebaser.options.mode = .absolute) (hroot : rebaser.searchPath.root = none)
    (hmaps : rebaser.options.sourceMap = true) (hcurrent : Path.isAbsolute files.current = true)
    (hready : ∀ ready, sheet.map = some (.map ready) → ready.Accepted)
    (hread : readMap sheet = .ok (map, remarks))
    (hreturns : rebaser.options.dropReturns = true → first.text.dropReturns = first.text)
    (hretraceable : rebaser.Retraceable sheet files.current map
      (Edit.between (rebaser.scannedText sheet) first.text))
    (hfirst : rebaser.runAs named files sheet = .ok first) (source : Text) :
    ∃ second, rebaser.runAs named files (sheet.again first source) = .ok second ∧
      second.text = first.text ∧
      missing second.diagnostics = missing first.diagnostics := by
  obtain ⟨map', remarks', rebased, hreturned, htokens⟩ := runAs_eq_ok_iff.mp hfirst
  obtain ⟨rfl, rfl⟩ := Prod.mk.inj (Except.ok.inj (hread.symm.trans hreturned.read))
  have hsound := sound_of_readMap hready hread sheet.sourceName
  have hedits := RebasedToken.map_token_edits htokens
  have hmade := RebasedToken.forall₂_edits htokens
  have houtgoing := hreturned.outgoing
  have htext := hreturned.text
  generalize RebasedToken.edits (Token.scan (rebaser.scannedText sheet)) rebased = edits at *
  have hfits : ∀ edit ∈ edits, edit.Fits := Edit.fits_of_rebased hedits fun edit hedit => by
    obtain ⟨rebased, -, hrebased, heq⟩ := Forall₂.exists_of_mem_left hmade hedit
    have hisRebased := isRebased_of_rebasedAs hmode hcurrent hrebased
    rwa [← heq] at hisRebased
  rw [htext, Edit.between_splice hedits hfits] at hretraceable
  have hlanded := Edit.landed_scan_splice hedits hfits
  rw [← htext] at hlanded
  obtain ⟨edited, houtgoing, hcases⟩ := outgoingMap_cases hmaps houtgoing
  -- The second run has the map that the first one made, and every reference comes from there.
  have hread' : readMap (sheet.again first source) = .ok (some edited, []) := by
    rw [readMap, StyleSheet.again, houtgoing]
    rfl
  have htraceable : Lineage.Traceable ⟨some edited, (sheet.again first source).sourceName⟩ := by
    rcases hcases with ⟨-, hmap⟩ | hedited
    · obtain rfl : map = some edited := hmap
      exact (sound_of_readMap hready hread _).traceable
    · exact Edit.traceable_editedMap hedits hsound hedited _
  have hscanned : rebaser.scannedText (sheet.again first source) = first.text := by
    unfold scannedText
    split
    · rename_i hdrop
      exact hreturns hdrop
    · rfl
  obtain ⟨rebased', hrebased', hmissing⟩ : ∃ rebased',
      List.Forall₂
        (fun token rebased' => rebaser.rebasedAs named files (sheet.again first source)
            ⟨some edited, (sheet.again first source).sourceName⟩ token = .ok rebased' ∧
          rebased'.text = token.raw)
        (Token.scan first.text) rebased' ∧
      List.Forall₂ (fun rebased rebased' : RebasedToken =>
        missing rebased'.diagnostics = missing rebased.diagnostics) rebased rebased' := by
    refine Forall₂.exists_both hlanded hmade ?_
    rintro edit hedit token rebased hlanded ⟨hrebased, heq⟩
    rcases hcases with ⟨hnil, -⟩ | hedited
    · simp [hnil] at hedit
    · obtain ⟨rebased', hrebased', hraw, hmissing⟩ :=
        exists_rebasedAs_of_landed hmode hroot hcurrent hsound hretraceable hedits hfits hedit
          hedited hlanded hrebased heq source
      exact ⟨rebased', ⟨hrebased', hraw⟩, hmissing⟩
  rw [← hscanned] at hrebased'
  obtain ⟨second, hsecond, hsame, hdiagnostics⟩ :=
    exists_runAs_of_raw hread' htraceable hrebased'
  refine ⟨second, hsecond, hsame.trans hscanned, ?_⟩
  rw [hdiagnostics, hreturned.diagnostics, List.nil_append, Diagnostic.missing_append,
    missing_of_readMap hread, Nat.zero_add, missing_flatMap hmissing]

end Run

/-- Rebasing what a run returned changes nothing.  References are spelt by absolute paths,
there is no root directory, and source maps are made, on files that do not change; the map of
the style sheet, if it has one, was read.  Then a second run on the returned text with the
returned map returns, on the workspace that is left as on any that knows the files, the same
text and as many diagnostics on missing files, provided that no carriage return is left to drop
and that the references are retraceable. -/
theorem run_again
    {rebaser : Rebaser} {files : FileSystem} {sheet : StyleSheet} {first : RebasedSheet}
    {map : Option SourceMap} {remarks : List Diagnostic} {before after : Workspace}
    (hmode : rebaser.options.mode = .absolute) (hroot : rebaser.searchPath.root = none)
    (hmaps : rebaser.options.sourceMap = true) (hcurrent : Path.isAbsolute files.current = true)
    (hready : ∀ ready, sheet.map = some (.map ready) → ready.Accepted)
    (hread : readMap sheet = .ok (map, remarks))
    (hreturns : rebaser.options.dropReturns = true → first.text.dropReturns = first.text)
    (hretraceable : rebaser.Retraceable sheet files.current map
      (Edit.between (rebaser.scannedText sheet) first.text))
    (hbefore : before.Knows Set.univ files)
    (hfirst : Runs (rebaser.run sheet) before (.ok first) after) (source : Text) :
    after.Knows Set.univ files ∧
    ∃ second, Gives Set.univ files (rebaser.run (sheet.again first source)) (.ok second) ∧
      second.text = first.text ∧
      missing second.diagnostics = missing first.diagnostics := by
  have hgives (sheet : StyleSheet) : Gives Set.univ files (rebaser.run sheet)
      (rebaser.runAs files.contentName files sheet) :=
    gives_run (fun hderived => by simp [hmode] at hderived)
      fun _ _ _ _ _ path _ => Set.mem_univ path
  obtain ⟨hresult, hafter, -⟩ := (hgives sheet).eq_of_runs hbefore hfirst
  obtain ⟨second, hsecond, htext, hmissing⟩ := exists_runAs_again hmode hroot hmaps hcurrent
    hready hread hreturns hretraceable hresult.symm source
  exact ⟨hafter, second, hsecond ▸ hgives (sheet.again first source), htext, hmissing⟩

def halfMissing : StyleSheet where
  text := "url(i.png)url(n.png)".text
  path := "/p/a.css".text

theorem run_again_of_half_missing :
    ∃ (first second : RebasedSheet) (after latest : Workspace),
      Runs (plain.run halfMissing) { files := imageFiles } (.ok first) after ∧
      Runs (plain.run (halfMissing.again first [])) after (.ok second) latest ∧
      first.text = "url(/p/i.png)url(n.png)".text ∧ second.text = first.text ∧
      missing second.diagnostics = missing first.diagnostics := by
  obtain ⟨first, hfirst⟩ := exists_runs_of_isOk (plain.run halfMissing) { files := imageFiles }
    (by decide +kernel)
  have htext : ((plain.run halfMissing).run.run { files := imageFiles }).1.toOption.map (·.text) =
      some "url(/p/i.png)url(n.png)".text := by
    decide +kernel
  rw [show (_ : Except Failure RebasedSheet × Workspace) = _ from hfirst] at htext
  have hretraceable : plain.Retraceable halfMissing imageFiles.current none
      (Edit.between (plain.scannedText halfMissing) first.text) := by
    refine ⟨fun edit _ => Edit.not_overridden_of_no_map _ _ _ _ _, fun edit _ origin _ _ => ?_⟩
    exact StyleSheet.located_of_absolute rfl (by decide) _ _
  obtain ⟨hafter, second, hgives, hsame, hmissing⟩ := run_again rfl rfl rfl (by decide)
    (by simp [halfMissing]) rfl (fun hdrop => by simp [plain] at hdrop) hretraceable
    (Workspace.knows_of_files _ _) hfirst []
  obtain ⟨latest, hsecond, -⟩ := hgives _ hafter
  exact ⟨first, second, _, latest, hfirst, hsecond, Option.some.inj htext, hsame, hmissing⟩

/-- A run on a style sheet, and one on what it returned. -/
def runTwice (rebaser : Rebaser) (sheet : StyleSheet) : Work (RebasedSheet × RebasedSheet) := do
  let first ← rebaser.run sheet
  let second ← rebaser.run (sheet.again first [])
  return (first, second)

/-- A style sheet with a relative path. -/
def relativeSheet : StyleSheet where
  text := "url(i.png)".text
  path := "sub/a.css".text

/-- An image that the style sheet's path leads to from the style sheet's own directory. -/
def deepFiles : FileSystem :=
  (FileSystem.empty "/p".text).place "/p/sub/sub/i.png".text ⟨.empty, 1, true⟩

/-- The name of a style sheet with a relative path is taken to be relative to the style sheet's
directory, so that a second run finds a file that the first one missed. -/
theorem exists_found_again :
    ∃ (first second : RebasedSheet) (after latest : Workspace),
      plain.options.mode = .absolute ∧ plain.searchPath.root = none ∧
      plain.options.sourceMap = true ∧ relativeSheet.map = none ∧
      Runs (plain.run relativeSheet) { files := deepFiles } (.ok first) after ∧
      Runs (plain.run (relativeSheet.again first [])) after (.ok second) latest ∧
      first.text = "url(i.png)".text ∧ second.text = "url(/p/sub/sub/i.png)".text := by
  obtain ⟨⟨first, second⟩, hruns⟩ := exists_runs_of_isOk (runTwice plain relativeSheet)
    { files := deepFiles } (by decide +kernel)
  have htexts : ((runTwice plain relativeSheet).run.run { files := deepFiles }).1.toOption.map
      (fun both => (both.1.text, both.2.text)) =
        some ("url(i.png)".text, "url(/p/sub/sub/i.png)".text) := by
    decide +kernel
  rw [show (_ : Except Failure (RebasedSheet × RebasedSheet) × Workspace) = _ from hruns] at htexts
  obtain ⟨htext, htext'⟩ := Prod.mk.inj (Option.some.inj htexts)
  obtain ⟨first', after, hfirst, hrest⟩ := exists_of_bind hruns
  obtain ⟨second', latest, hsecond, hboth⟩ := exists_of_bind hrest
  obtain ⟨hpair, -⟩ := eq_of_pure hboth
  obtain ⟨rfl, rfl⟩ := Prod.mk.inj hpair
  exact ⟨first', second', after, latest, rfl, rfl, rfl, rfl, hfirst, hsecond, htext, htext'⟩

end Rebaser

end UrlRebase
