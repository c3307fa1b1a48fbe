import UrlRebase.Proofs.BuiltParts

/-!
# Packed maps

The texts of the inputs of an asset are joined with a separator between them, and their maps
by the line breaks of the texts.  If the separator ends a line, every text starts a line of
the whole, and the map of the whole traces each position of a text as the map of its input
does.

Behind a separator that does not end its line a text starts in the middle of a line.  The
joined map does not know the column there, so the mappings of the text stand too far left,
where they may count for positions of the text before it.
-/

namespace UrlRebase.Packer

open Work SourceMap

variable {packer : Packer}

/-! ## Assets -/

/-- A computation that is blind to the past does the same behind a line of the log. -/
theorem exists_runs_behind_log
    {α : Type} {action : Work α} (h : Blind action) {before after : Workspace}
    {result : Except Failure α} (hruns : Runs action before result after) (level : LogLevel)
    (message : Text) :
    ∃ after', Runs action { before with log := before.log ++ [⟨level, message⟩] } result after' := by
  rw [← Past.before_silent before] at hruns
  obtain ⟨fresh, hfresh, -⟩ := (h.runs_iff _).mp hruns
  let past : Past :=
    ⟨before.lookups, before.reads, before.log ++ [⟨level, message⟩], before.written⟩
  have hpast : past.before (Past.silent before) =
      { before with log := before.log ++ [⟨level, message⟩] } := by
    simp [past, Past.before, Past.silent]
  refine ⟨past.before fresh, ?_⟩
  rw [← hpast]
  exact h.before past hfresh

section Assets

variable {name : Text} {inputs : List Input} {drafts : List Draft}
  {before after : Workspace}

/-- An asset of traceable drafts is built to their joined texts and their joined maps. -/
theorem runs_build
    (hmaps : packer.options.sourceMap = true)
    (hprocess : Runs (inputs.mapM packer.process) before (.ok drafts) after)
    (htraceable : ∀ draft ∈ drafts, draft.IsTraceable)
    (hsome : ∃ draft ∈ drafts, draft.map ≠ none)
    (hseparator : inputs.length ≤ 1 ∨ ∃ text, packer.separatorOf name = .text text)
    (output : Text) :
    ∃ built whole blocks final,
      Built before.files.current (separatorText (packer.separatorOf name)) output
        (inputs.zip drafts) built ∧
      Laid whole 0 (built.map Prod.snd) blocks ∧
      whole.mappings = Mapping.sort blocks.flatten ∧
      Runs (packer.build name inputs output) before
        (.ok ((built.map Prod.fst).flatten, some whole)) final := by
  have hlength := length_of_mapM hprocess
  have hdrafts : ∀ pair ∈ inputs.zip drafts, pair.2.IsTraceable :=
    fun pair hpair => htraceable pair.2 (List.of_mem_zip hpair).2
  obtain ⟨after', hlogged⟩ := exists_runs_behind_log
    (Blind.mapM packer.blind_process) hprocess .debug
    ("Packing ".text ++ name ++ " <<< ".text ++ Text.joined " | ".text (inputs.map (·.name)))
  obtain ⟨built, hbuilt, hparts⟩ := runs_buildParts hlogged htraceable hseparator output
  obtain ⟨whole, blocks, hconcat, hlaid, hmappings, -⟩ :=
    exists_concat (.string (Path.basename name)) (hparts.joinable hdrafts)
  have hany : (built.map Prod.snd).any (·.map.isSome) = true := by
    obtain ⟨draft, hdraft, hmap⟩ := hsome
    have hzip : (inputs.zip drafts).map Prod.snd = drafts := List.map_snd_zip (le_of_eq hlength)
    rw [← hzip] at hdraft
    obtain ⟨pair, hpair, rfl⟩ := List.mem_map.mp hdraft
    obtain ⟨entry, hentry, hbeside⟩ := hparts.exists_entry hpair
    obtain ⟨map, hbeside', hnone, -⟩ :=
      (hdrafts pair hpair).exists_mapBeside before.files.current pair.1.path output
    have heq : map = entry.2.map := Except.ok.inj (hbeside'.symm.trans hbeside)
    refine List.any_eq_true.mpr ⟨entry.2, List.mem_map_of_mem hentry, ?_⟩
    rw [Option.isSome_iff_ne_none, ← heq]
    exact fun h => hmap (hnone.mp h)
  have hlog := Runs.of_modify (fun workspace => { workspace with log := workspace.log ++
    [⟨.debug, "Packing ".text ++ name ++ " <<< ".text ++
      Text.joined " | ".text (inputs.map (·.name))⟩] }) before
  refine ⟨built, whole, blocks, after', hparts, hlaid, hmappings, ?_⟩
  unfold build
  apply hlog.bind
  apply hbuilt.bind
  simp only
  rw [hmaps, Bool.true_and, if_pos hany, hconcat]
  exact (Runs.of_lift _ after').bind (Runs.of_pure _ after')

theorem endsLine_front
    {pairs : List (Input × Draft)} {separator : Text}
    (hends : pairs ≠ [] → ∃ line, separator = line ++ [.char '\n']) :
    Text.EndsLine (pairs.map fun pair => pair.2.text ++ separator).flatten := by
  apply Text.EndsLine.flatten
  intro text htext
  obtain ⟨pair, hpair, rfl⟩ := List.mem_map.mp htext
  obtain ⟨line, hline⟩ := hends (List.ne_nil_of_mem hpair)
  exact ⟨pair.2.text ++ line, by rw [hline, List.append_assoc]⟩

/-- A place of a text is above the end of the line behind it. -/
theorem line_placeOf_lt
    {text : Text} {offset : Nat} (hoffset : offset ≤ text.length) (line : Text) :
    (text.placeOf offset).position.line <
      (List.count (.char '\n') (text ++ (line ++ [CodePoint.char '\n'])) : Nat) := by
  have hline := Text.line_placeOf_le hoffset
  rw [Place.position, List.count_append, List.count_append, List.count_singleton_self]
  dsimp only
  omega

/-- The joined map of parts traces every position of the text of a part, where that text stands
among the others, to the origin to which the map of the part traces it, if the separator ends a
line or there is none. -/
theorem Built.exists_origin
    {current separator output : Text} {pairs front behind : List (Input × Draft)} {input : Input}
    {draft : Draft} {built : List (Text × Part)} {whole relocated : SourceMap}
    {blocks : List (List Mapping)} (hparts : Built current separator output pairs built)
    (hsplit : pairs = front ++ (input, draft) :: behind)
    (htraceable : ∀ pair ∈ pairs, pair.2.IsTraceable)
    (hends : pairs.length ≤ 1 ∨ ∃ line, separator = line ++ [.char '\n'])
    (hlaid : Laid whole 0 (built.map Prod.snd) blocks)
    (hmappings : whole.mappings = Mapping.sort blocks.flatten)
    (hbeside : mapBeside current input.path output draft.map = .ok (some relocated)) :
    ∃ start rest, (built.map Prod.fst).flatten = start ++ draft.text ++ rest ∧
      start = (front.map fun pair => pair.2.text ++ separator).flatten ∧
      ∀ offset, offset ≤ draft.text.length → ∀ (origin : Origin) (own own' : Text),
        Lineage.origin ⟨some relocated, own⟩ (draft.text.placeOf offset).position =
          .ok origin → origin.mapped = true →
        ∃ origin', Lineage.origin ⟨some whole, own'⟩
            (Text.placeOf (built.map Prod.fst).flatten (start.length + offset)).position =
              .ok origin' ∧
          origin'.mapped = true ∧ origin.SamePlace origin' := by
  have hstacked := hparts.stacked htraceable (hends.imp_right fun ⟨line, hline⟩ => by simp [hline])
  have hlines : ∀ entry ∈ built, entry.2.lines = entry.1.count (.char '\n') :=
    fun entry hentry => (hparts.exists_pair hentry).1
  have hnonneg := hparts.lines_nonneg
  have hjoinable := hparts.joinable htraceable
  subst hsplit
  obtain ⟨left, text, map, right, rfl, hleft, htext, hmap, hright⟩ := hparts.split
  obtain rfl := Except.ok.inj (hmap.symm.trans hbeside)
  have hstart : Text.EndsLine (left.map Prod.fst).flatten := by
    rw [hleft]
    refine endsLine_front fun hfront => hends.resolve_left ?_
    have hpos := List.length_pos_iff.mpr hfront
    rw [List.length_append, List.length_cons]
    omega
  have hwhole : ((left ++ (text, ⟨text.count (.char '\n'), some relocated⟩) :: right).map
      Prod.fst).flatten = (left.map Prod.fst).flatten ++ draft.text ++
        ((if behind = [] then [] else separator) ++ (right.map Prod.fst).flatten) := by
    simp [htext, List.append_assoc]
  refine ⟨(left.map Prod.fst).flatten, _, hwhole, by rw [hleft], ?_⟩
  intro offset hoffset origin own own' horigin hmapped
  rw [List.map_append, List.map_cons] at hlaid hstacked hjoinable hnonneg
  have hinside : right.map Prod.snd ≠ [] →
      (draft.text.placeOf offset).position.line < (text.count (.char '\n') : Nat) := by
    intro hmore
    have hbehind : behind ≠ [] := fun hnil => hmore (by rw [hright.mpr hnil]; rfl)
    obtain ⟨line, hline⟩ := hends.resolve_left (by
      have hpos := List.length_pos_iff.mpr hbehind
      rw [List.length_append, List.length_cons]
      omega)
    rw [htext, if_neg hbehind, hline]
    exact line_placeOf_lt hoffset line
  obtain ⟨origin', horigin', hjoined⟩ :=
    exists_origin_of_laid hlaid hmappings hnonneg hjoinable hstacked rfl hinside horigin hmapped own'
  refine ⟨origin', ?_, hjoined.mapped, hjoined.samePlace (root_of_mapBeside hbeside)⟩
  rw [hwhole, Text.placeOf_append_append hstart _ _ hoffset]
  rwa [Built.sum_lines fun entry hentry => hlines entry (List.mem_append_left _ hentry)]
    at horigin'

/-- The map of a built asset traces every position of the text of an input, where that text
stands in the asset, to the origin to which the map of the input beside the asset traces it,
if the separator ends a line or there is none. -/
theorem origin_of_build
    (hmaps : packer.options.sourceMap = true)
    (hprocess : Runs (inputs.mapM packer.process) before (.ok drafts) after)
    (htraceable : ∀ draft ∈ drafts, draft.IsTraceable)
    (hsome : ∃ draft ∈ drafts, draft.map ≠ none)
    (hseparator : inputs.length ≤ 1 ∨
      ∃ line, packer.separatorOf name = .text (line ++ [.char '\n']))
    (output : Text) :
    ∃ text whole final,
      Runs (packer.build name inputs output) before (.ok (text, some whole)) final ∧
      ∀ front input draft behind relocated, inputs.zip drafts = front ++ (input, draft) :: behind →
        mapBeside before.files.current input.path output draft.map = .ok (some relocated) →
        ∃ start rest, text = start ++ draft.text ++ rest ∧
          start = (front.map fun pair =>
            pair.2.text ++ separatorText (packer.separatorOf name)).flatten ∧
          ∀ offset, offset ≤ draft.text.length → ∀ (origin : Origin) (own own' : Text),
            Lineage.origin ⟨some relocated, own⟩ (draft.text.placeOf offset).position =
              .ok origin → origin.mapped = true →
            ∃ origin', Lineage.origin ⟨some whole, own'⟩
                (text.placeOf (start.length + offset)).position = .ok origin' ∧
              origin'.mapped = true ∧ origin.SamePlace origin' := by
  have hlength := length_of_mapM hprocess
  have hdrafts : ∀ pair ∈ inputs.zip drafts, pair.2.IsTraceable :=
    fun pair hpair => htraceable pair.2 (List.of_mem_zip hpair).2
  obtain ⟨built, whole, blocks, final, hparts, hlaid, hmappings, hbuild⟩ :=
    runs_build hmaps hprocess htraceable hsome
      (hseparator.imp_right fun ⟨line, hline⟩ => ⟨_, hline⟩) output
  have hends : (inputs.zip drafts).length ≤ 1 ∨
      ∃ line, separatorText (packer.separatorOf name) = line ++ [.char '\n'] := by
    rw [List.length_zip, hlength, Nat.min_self]
    refine hseparator.imp_right fun ⟨line, hline⟩ => ⟨line, ?_⟩
    rw [hline]
    rfl
  refine ⟨_, whole, final, hbuild, ?_⟩
  intro front input draft behind relocated hsplit hbeside
  exact hparts.exists_origin hsplit hdrafts hends hlaid hmappings hbeside

end Assets

/-! ## Texts that share a line -/

theorem generated_eq_start
    {mappings : List Mapping} {mapping : Mapping}
    (hlines : ∀ other ∈ mappings, 0 ≤ other.generated.line)
    (hcolumns : ∀ other ∈ mappings, 0 ≤ other.generated.column)
    (hnearest : Lineage.nearest? mappings ⟨0, 0⟩ = some mapping) :
    mapping.generated = ⟨0, 0⟩ := by
  obtain ⟨hmapping, hle⟩ := Lineage.nearest?_eq_some hnearest
  have hline := hlines mapping hmapping
  have hcolumn := hcolumns mapping hmapping
  rw [Position.le_iff] at hle
  dsimp only at hle
  exact Position.le_antisymm (Position.le_iff.mpr (by dsimp only; omega))
    (Position.le_iff.mpr (by dsimp only; omega))

/-- Of two texts on one line the second one decides where the line comes from: the start of
the first text is traced to where the second one starts. -/
theorem origin_of_shared_line
    {name output separator own : Text} {first second : Input} {draft draft' : Draft}
    {relocated : SourceMap} {origin : Origin} {before after : Workspace}
    (hmaps : packer.options.sourceMap = true)
    (hprocess : Runs ([first, second].mapM packer.process) before (.ok [draft, draft']) after)
    (htraceable : draft.IsTraceable) (htraceable' : draft'.IsTraceable)
    (hseparator : packer.separatorOf name = .text separator)
    (hshared : .char '\n' ∉ draft.text ++ separator)
    (hbeside : mapBeside before.files.current second.path output draft'.map =
      .ok (some relocated))
    (hcolumns : ∀ mapping ∈ relocated.mappings, 0 ≤ mapping.generated.column)
    (horigin : Lineage.origin ⟨some relocated, own⟩ ⟨0, 0⟩ = .ok origin)
    (hmapped : origin.mapped = true) :
    ∃ text whole final,
      Runs (packer.build name [first, second] output) before (.ok (text, some whole)) final ∧
      ∀ own', ∃ origin', Lineage.origin ⟨some whole, own'⟩ (text.placeOf 0).position =
        .ok origin' ∧ origin.SamePlace origin' := by
  have hall : ∀ other ∈ [draft, draft'], other.IsTraceable := by
    simp [htraceable, htraceable']
  have hsome : ∃ other ∈ [draft, draft'], other.map ≠ none := by
    refine ⟨draft', by simp, fun hnone => ?_⟩
    rw [hnone] at hbeside
    cases hbeside
  obtain ⟨built, whole, blocks, final, hparts, hlaid, hmappings, hbuild⟩ :=
    runs_build hmaps hprocess hall hsome (.inr ⟨separator, hseparator⟩) output
  refine ⟨_, whole, final, hbuild, fun own' => ?_⟩
  rw [Text.position_placeOf_zero]
  obtain ⟨map, hbeside', -, hrelocated⟩ :=
    htraceable'.exists_mapBeside before.files.current second.path output
  obtain rfl := Except.ok.inj (hbeside'.symm.trans hbeside)
  obtain ⟨hjoinable, -⟩ := hrelocated relocated rfl
  obtain ⟨mapping, -, hnearest, -⟩ := Lineage.exists_nearest_of_mapped horigin hmapped
  -- The mapping that counts at the start is at the start, so none of the first text is behind it.
  have hexact := generated_eq_start hjoinable.nonneg hcolumns hnearest
  have hsplit : Built before.files.current separator output
      ([(first, draft)] ++ (second, draft') :: []) built := by
    rw [hseparator] at hparts
    exact hparts
  have hlines : ∀ entry ∈ built, entry.2.lines = entry.1.count (.char '\n') :=
    fun entry hentry => (hsplit.exists_pair hentry).1
  obtain ⟨left, text, map, right, rfl, hleft, -, hmap, hright⟩ := hsplit.split
  obtain rfl := Except.ok.inj (hmap.symm.trans hbeside)
  obtain rfl := hright.mpr rfl
  have hnone : ((left.map Prod.snd).map Part.lines).sum = 0 := by
    rw [Built.sum_lines fun entry hentry => hlines entry (List.mem_append_left _ hentry), hleft,
      List.map_singleton, List.flatten_singleton, List.count_eq_zero_of_not_mem hshared]
    rfl
  rw [List.map_append, List.map_cons] at hlaid
  obtain ⟨lefts, block, rights, rfl, -, hblock, hrights⟩ := hlaid.split
  rw [hnone] at hblock
  cases hrights
  obtain ⟨moved, hmoved, hcarried⟩ :=
    Option.Rel.exists_right (nearest?_carried hblock ⟨0, 0⟩) hnearest
  have hmoved' : Lineage.nearest? whole.mappings ⟨0, 0⟩ = some moved := by
    rw [hmappings, List.flatten_append, List.flatten_cons]
    refine nearest?_sort_middle (sorted_of_carried hblock hjoinable.sorted) hmoved
      (fun other _ hle => ?_) (by simp)
    rw [hcarried.generated, hexact]
    exact hle
  obtain ⟨origin', horigin', hjoined⟩ :=
    exists_origin_of_carried hnearest hmoved' hcarried horigin hmapped own'
  exact ⟨origin', horigin', hjoined.samePlace (root_of_mapBeside hbeside)⟩

/-- The map of a compiled style sheet of one line, which comes from the start of a source. -/
def startOf (source : String) : SourceMap :=
  ofStart (.string []) source.text (.string [])

theorem isTraceable_startOf (text : Text) (source : String) :
    Draft.IsTraceable ⟨text, some (.map (startOf source))⟩ := by
  intro given hgiven
  obtain rfl := Option.some.inj hgiven
  exact ⟨startOf source, rfl, joinable_ofStart [] source.text (.string []), by simp [startOf, ofStart]⟩

/-- A packer of two style sheets that are compiled, each with a map to its own start. -/
def ofStarts (separator : Text) : Packer where
  tools := .ofTable
    [("/p/src/a.scss".text, ⟨"a{}".text, some (.map (startOf "a.scss"))⟩),
      ("/p/src/b.scss".text, ⟨"b{}".text, some (.map (startOf "b.scss"))⟩)]
  base := "/p".text
  separators := [(.text "css".text, .text separator)]

def compiled (name : String) : Input where
  name := name.text
  path := "/p/src/".text ++ name.text
  processors := [.text "cssrebase.processors.sass.process".text]
  depends := .null

def twoSources : FileSystem :=
  ((FileSystem.empty "/p".text).place "/p/src/a.scss".text ⟨.empty, 1, true⟩).place
    "/p/src/b.scss".text ⟨.empty, 1, true⟩

theorem separatorOf_starts (separator : Text) :
    (ofStarts separator).separatorOf "x.css".text = .text separator := by
  cbv

theorem runs_process_starts (separator : Text) :
    ∃ after, Runs ([compiled "a.scss", compiled "b.scss"].mapM (ofStarts separator).process)
      { files := twoSources } (.ok [⟨"a{}".text, some (.map (startOf "a.scss"))⟩,
        ⟨"b{}".text, some (.map (startOf "b.scss"))⟩]) after :=
  ⟨_, rfl⟩

/-- The map of one of the style sheets beside an asset in another directory. -/
def startBeside (source : Text) : SourceMap :=
  ofParts [source] (startOf "").mappings [.string []] .null .null none

theorem origin_startBeside (source own : Text) (column : Nat) :
    Lineage.origin ⟨some (startBeside source), own⟩ ⟨0, column⟩ = .ok
      { source, line := some 0, column := some 0, sourceIndex := some 0, name := some 0 } := by
  simp [Lineage.origin, startBeside, ofParts, startOf, ofStart, Mapping.sort, Lineage.nearest?,
    Position.le, entry?]

/-- Behind the line break the second text is traced to its own file. -/
theorem origin_of_build_of_newline :
    ∃ text whole final origin',
      Runs ((ofStarts ['\n']).build "x.css".text [compiled "a.scss", compiled "b.scss"]
        "/p/out/x.css".text) { files := twoSources } (.ok (text, some whole)) final ∧
      Lineage.origin ⟨some whole, []⟩ (text.placeOf 5).position = .ok origin' ∧
      origin'.source = "../src/b.scss".text := by
  obtain ⟨after, hprocess⟩ := runs_process_starts ['\n']
  obtain ⟨text, whole, final, hbuild, htraces⟩ := origin_of_build rfl hprocess
    (by simp [isTraceable_startOf]) ⟨_, List.mem_cons_self, by simp⟩ (.inr ⟨[], separatorOf_starts ['\n']⟩)
    "/p/out/x.css".text
  obtain ⟨start, rest, -, hstart, htraces⟩ := htraces [(compiled "a.scss", _)] (compiled "b.scss")
    _ [] (startBeside "../src/b.scss".text) rfl rfl
  obtain ⟨origin', horigin', -, hsource, -⟩ := htraces 1 (by decide) _ [] []
    (origin_startBeside "../src/b.scss".text [] 1) rfl
  obtain rfl : start = "a{}\n".text := by rw [hstart, separatorOf_starts]; rfl
  exact ⟨text, whole, final, origin', hbuild, horigin', hsource.symm⟩

/-- Behind a separator without a line break the start of the first text is traced to the file
of the second one, although its own map beside the asset traces it to its own file. -/
theorem exists_foreign_origin :
    ∃ text whole final origin',
      mapBeside "/p".text (compiled "a.scss").path "/p/out/x.css".text
        (some (.map (startOf "a.scss"))) = .ok (some (startBeside "../src/a.scss".text)) ∧
      (∃ origin, Lineage.origin ⟨some (startBeside "../src/a.scss".text), []⟩ ⟨0, 0⟩ =
        .ok origin ∧ origin.mapped = true ∧ origin.source = "../src/a.scss".text) ∧
      Runs ((ofStarts "/**/".text).build "x.css".text [compiled "a.scss", compiled "b.scss"]
        "/p/out/x.css".text) { files := twoSources } (.ok (text, some whole)) final ∧
      Lineage.origin ⟨some whole, []⟩ (text.placeOf 0).position = .ok origin' ∧
      origin'.source = "../src/b.scss".text := by
  obtain ⟨after, hprocess⟩ := runs_process_starts "/**/".text
  have hbeside : mapBeside "/p".text (compiled "b.scss").path "/p/out/x.css".text
      (some (.map (startOf "b.scss"))) = .ok (some (startBeside "../src/b.scss".text)) := rfl
  obtain ⟨text, whole, final, hbuild, htraces⟩ := origin_of_shared_line
    rfl hprocess (isTraceable_startOf _ _) (isTraceable_startOf _ _)
    (separatorOf_starts "/**/".text) (by decide) hbeside
    (by simp [startBeside, ofParts, startOf, ofStart, Mapping.sort])
    (origin_startBeside "../src/b.scss".text [] 0) rfl
  obtain ⟨origin', horigin', hsource, -⟩ := htraces []
  exact ⟨text, whole, final, origin', rfl,
    ⟨_, origin_startBeside "../src/a.scss".text [] 0, rfl, rfl⟩, hbuild, horigin', hsource.symm⟩

end UrlRebase.Packer
