import UrlRebase.Proofs.BuiltParts
import UrlRebase.Proofs.RelativeWays
import UrlRebase.Proofs.ReusableMaps

/-!
# Sources of packed maps

A style sheet that is only rebased had no map before, so its map has one source, the path of
the input.  Beside the asset this source becomes the way to where the path leads from the
directory of the input, and the joined map lists these ways, one for each input and no others.
-/

namespace UrlRebase

open Work

/-! ## Maps of style sheets that had none -/

namespace Edit

open SourceMap

variable {text : Text} {edits : List Edit} {lineage : Lineage}

theorem sources_anchor
    {map map' : SourceMap} {line column : Nat} {mapping : Mapping} (hmap : lineage.map = none)
    (hsources : map.sources = [lineage.source])
    (h : anchor edits lineage map line column = .ok (mapping, map')) :
    map'.sources = [lineage.source] := by
  have hintern : map.internSource lineage.source .null = (0, map) := by
    simp [internSource, hsources, List.idxOf?, List.findIdx?_cons]
  have hhere : lineage.origin ⟨line, column⟩ = .ok (lineage.here ⟨line, column⟩ true) := by
    rw [Lineage.origin, hmap]
  simp only [anchor, hhere, bind, Except.bind, pure, Except.pure, Lineage.here, hintern] at h
  obtain ⟨-, rfl⟩ := Prod.mk.inj (Except.ok.inj h)
  exact hsources

theorem sources_anchors
    {map map' : SourceMap} {places : List (Nat × Nat)} {added : List Mapping}
    (hmap : lineage.map = none) (hsources : map.sources = [lineage.source])
    (h : anchors edits lineage map places = .ok (added, map')) :
    map'.sources = [lineage.source] := by
  induction places generalizing map added with
  | nil =>
      obtain ⟨-, rfl⟩ := Prod.mk.inj (Except.ok.inj h)
      exact hsources
  | cons place rest ih =>
      obtain ⟨⟨first, between⟩, hfirst, hrest⟩ := Except.bind_eq_ok.mp h
      obtain ⟨⟨others, after⟩, hothers, hadded⟩ := Except.bind_eq_ok.mp hrest
      obtain ⟨-, rfl⟩ := Prod.mk.inj (Except.ok.inj hadded)
      exact ih (sources_anchor hmap hsources hfirst) hothers

/-- The map of an edited text that had no map has the text itself as its one source, and can
be joined with others. -/
theorem editedMap_of_no_map
    {granularity : Granularity} {edited : SourceMap}
    (hedits : (edits.map token).Subperm (Token.scan text)) (hmap : lineage.map = none)
    (h : editedMap text edits lineage granularity = .ok edited) :
    edited.sources = [lineage.source] ∧ edited.root = .null ∧ edited.Joinable := by
  have hnone : ∀ map, lineage.map = some map → False := by simp [hmap]
  have hroot : edited.root = .null := by
    rw [(editedMap_carries h).root, baseMap, hmap]
    rfl
  obtain ⟨other, hother, hsorted, -, -, hwf, -⟩ := editedMap_reusable hedits
    (fun map hsome => (hnone map hsome).elim) (fun map hsome => (hnone map hsome).elim) granularity
  obtain rfl := Except.ok.inj (hother.symm.trans h)
  refine ⟨?_, hroot, hsorted, fun mapping hmapping => (hwf mapping hmapping).indexed,
    fun mapping hmapping => ?_, by simp [hroot, Json.truthy]⟩
  · obtain ⟨⟨added, map⟩, hanchors, hedited⟩ := Except.bind_eq_ok.mp h
    obtain rfl := Except.ok.inj hedited
    have hbase : (baseMap text lineage).sources = [lineage.source] := by
      rw [baseMap, hmap]
      rfl
    have hsources := sources_anchors hmap hbase hanchors
    exact hsources
  · cases hwf mapping hmapping with
    | unmapped hline => exact hline
    | mapped hline => exact hline

end Edit

/-! ## Rebased drafts -/

theorem map_token_zipWith_sublist (tokens : List Token) (rebased : List RebasedToken) :
    ((tokens.zipWith (fun token rebased => (⟨token, rebased.text⟩ : Edit)) rebased).map
      Edit.token).Sublist tokens := by
  induction tokens generalizing rebased with
  | nil => simp
  | cons token tokens ih =>
      cases rebased with
      | nil => simp
      | cons outcome rebased => simpa using ih rebased

theorem exists_of_outgoingMap
    {rebaser : Rebaser} {text : Text} {edits : List Edit} {lineage : Lineage}
    {outgoing : Option SourceMap} (hmaps : rebaser.options.sourceMap = true)
    (hmap : lineage.map = none) (h : rebaser.outgoingMap text edits lineage = .ok outgoing) :
    ∃ edited, Edit.editedMap text edits lineage rebaser.options.granularity = .ok edited ∧
      outgoing = some edited := by
  have houtgoing : rebaser.outgoingMap text edits lineage =
      ((Edit.editedMap text edits lineage rebaser.options.granularity).map some).mapError
        .mapUse := by
    unfold Rebaser.outgoingMap
    rw [if_neg (by simp [hmaps]), hmap]
    cases edits <;> rfl
  rw [houtgoing] at h
  cases hedited : Edit.editedMap text edits lineage rebaser.options.granularity with
  | ok edited =>
      rw [hedited] at h
      exact ⟨edited, rfl, (Except.ok.inj h).symm⟩
  | error error =>
      rw [hedited] at h
      cases h

namespace Packer

variable {packer : Packer}

/-- A rebased style sheet that had no map gets one with the style sheet as its one source. -/
theorem map_of_run
    {rebaser : Rebaser} {sheet : StyleSheet} {rebased : RebasedSheet} {before after : Workspace}
    (hmaps : rebaser.options.sourceMap = true) (hmap : sheet.map = none)
    (hruns : Runs (rebaser.run sheet) before (.ok rebased) after) :
    ∃ map, rebased.map = some map ∧ map.sources = [sheet.sourceName] ∧ map.root = .null ∧
      map.Joinable := by
  have hread : Rebaser.readMap sheet = .ok (none, []) := by rw [Rebaser.readMap, hmap]
  unfold Rebaser.run at hruns
  obtain ⟨read, hread', hruns⟩ := exists_of_lift_bind hruns
  obtain rfl := Except.ok.inj (hread.symm.trans hread')
  obtain ⟨outcomes, _, -, hruns⟩ := exists_of_bind hruns
  obtain ⟨_, -, hruns⟩ := exists_of_lift_bind hruns
  obtain ⟨outgoing, houtgoing, hruns⟩ := exists_of_lift_bind hruns
  have hrebased : rebased.map = outgoing := by
    split at hruns
    · obtain ⟨rfl, -⟩ := eq_of_pure hruns
      rfl
    · obtain ⟨_, _, -, hruns⟩ := exists_of_bind hruns
      obtain ⟨rfl, -⟩ := eq_of_pure hruns
      rfl
  obtain ⟨edited, hedited, rfl⟩ := exists_of_outgoingMap hmaps rfl houtgoing
  exact ⟨edited, hrebased, Edit.editedMap_of_no_map
    (map_token_zipWith_sublist _ _).subperm rfl hedited⟩

/-- An input that is only rebased becomes a draft with a map whose one source is the input. -/
theorem map_of_process
    {input : Input} {draft : Draft} {registration : Setting} {before after : Workspace}
    (hmaps : packer.options.sourceMap = true) (hprocessors : input.processors = [registration])
    (hfind : Processor.find packer.tools registration = .ok .rebase)
    (hruns : Runs (packer.process input) before (.ok draft) after) :
    ∃ map, draft.map = some (.map map) ∧ map.sources = [input.path] ∧ map.root = .null ∧
      map.Joinable := by
  unfold process at hruns
  simp only [hprocessors, List.foldlM_cons, List.foldlM_nil, bind_pure] at hruns
  obtain ⟨text, _, -, hruns⟩ := exists_of_bind hruns
  unfold runProcessor at hruns
  obtain ⟨processor, hprocessor, hruns⟩ := exists_of_lift_bind hruns
  obtain rfl := Except.ok.inj (hfind.symm.trans hprocessor)
  obtain ⟨sheet, _, hsheet, hruns⟩ := exists_of_bind hruns
  obtain ⟨_, _, -, hruns⟩ := exists_of_bind hruns
  obtain ⟨rfl, -⟩ := eq_of_pure hruns
  obtain ⟨map, hmap, hsources, hrest⟩ := map_of_run hmaps rfl hsheet
  refine ⟨map, by rw [hmap]; rfl, ?_, hrest⟩
  rw [hsources, StyleSheet.sourceName, if_pos rfl]

/-! ## Packed maps -/

/-- Whether an input goes through nothing but the processor that rebases. -/
def IsOnlyRebased (packer : Packer) (input : Input) : Prop :=
  ∃ registration, input.processors = [registration] ∧
    Processor.find packer.tools registration = .ok .rebase

/-- What the map of an asset calls an input: the way to where the path of the input leads
from its own directory. -/
def nameBeside (current output path : Text) : Text :=
  Path.relative current
    (Path.absolute current (Path.join (Path.dirname (Path.absolute current path)) path))
    (Path.dirname (Path.absolute current output))

/-- Whether there is a map that can be joined with others and has one source, with no root. -/
def HasSource (source : Text) (map? : Option SourceMap) : Prop :=
  ∃ map, map? = some map ∧ map.sources = [source] ∧ map.root = .null ∧ map.Joinable

theorem hasSource_of_mapBeside
    {current input output : Text} {given : SourceMap} {beside : Option SourceMap}
    (hgiven : HasSource input (some given))
    (h : mapBeside current input output (some (.map given)) = .ok beside) :
    HasSource (nameBeside current output input) beside := by
  obtain ⟨map, hmap, hsources, hroot, hjoinable⟩ := hgiven
  obtain rfl := Option.some.inj hmap
  obtain ⟨relocated, hbeside, hjoinable, -, hnames⟩ :=
    SourceMap.exists_beside current input output hjoinable
  have hrelocated : mapBeside current input output (some (.map given)) = .ok (some relocated) := by
    simp only [mapBeside, SourceMap.load, Except.mapError, hbeside, bind, Except.bind, pure,
      Except.pure]
  obtain rfl := Except.ok.inj (hrelocated.symm.trans h)
  refine ⟨relocated, rfl, ?_, SourceMap.root_of_mapBeside hrelocated, hjoinable⟩
  rw [hsources, hroot] at hnames
  generalize relocated.sources = names at hnames
  cases hnames with
  | cons hname hrest =>
      cases hrest
      rw [← Except.ok.inj hname]
      rfl

/-- The parts of an asset whose inputs are only rebased have one source each, its input. -/
theorem hasSource_of_buildParts
    {separator : Setting} {output : Text} {inputs : List Input} {built : List (Text × SourceMap.Part)}
    {before after : Workspace} (hmaps : packer.options.sourceMap = true)
    (hinputs : ∀ input ∈ inputs, packer.IsOnlyRebased input)
    (hruns : Runs (packer.buildParts separator output inputs) before (.ok built) after) :
    List.Forall₂ (fun input entry =>
      HasSource (nameBeside before.files.current output input.path) entry.2.map) inputs built := by
  induction inputs generalizing before built with
  | nil =>
      obtain ⟨rfl, -⟩ := eq_of_pure hruns
      exact .nil
  | cons input rest ih =>
      obtain ⟨registration, hprocessors, hfind⟩ := hinputs input List.mem_cons_self
      unfold buildParts at hruns
      obtain ⟨draft, between, hdraft, hruns⟩ := exists_of_bind hruns
      have hcurrent := (packer.blind_process input).current hdraft
      obtain ⟨given, hgiven, hsource⟩ := map_of_process hmaps hprocessors hfind hdraft
      extract_lets next at hruns
      have hnext {text : Text} (hruns : Runs (next text) between (.ok built) after) :
          List.Forall₂ (fun input entry =>
            HasSource (nameBeside before.files.current output input.path) entry.2.map)
            (input :: rest) built := by
        obtain ⟨current, _, hhere, hruns⟩ := exists_of_bind hruns
        obtain ⟨rfl, rfl⟩ := eq_of_current hhere
        obtain ⟨beside, hbeside, hruns⟩ := exists_of_lift_bind hruns
        obtain ⟨others, _, hothers, hruns⟩ := exists_of_bind hruns
        obtain ⟨rfl, rfl⟩ := eq_of_pure hruns
        rw [hgiven, hcurrent] at hbeside
        have hrest := ih (fun other hother => hinputs other (List.mem_cons_of_mem input hother)) hothers
        rw [hcurrent] at hrest
        exact .cons (hasSource_of_mapBeside ⟨given, rfl, hsource⟩ hbeside) hrest
      split at hruns
      · rw [pure_bind] at hruns
        exact hnext hruns
      · rw [pure_bind] at hruns
        exact hnext hruns
      · obtain ⟨_, _, hthrown, -⟩ := exists_of_bind hruns
        cases hthrown

theorem exists_source_iff
    {inputs : List Input} {built : List (Text × SourceMap.Part)} {nameOf : Input → Text}
    (hparts : List.Forall₂ (fun input entry => HasSource (nameOf input) entry.2.map) inputs built)
    (listed : Text) :
    (∃ part ∈ built.map Prod.snd, ∃ map, part.map = some map ∧
      ∃ source ∈ map.sources, SourceMap.rootedSource map.root source = .ok listed) ↔
      ∃ input ∈ inputs, listed = nameOf input := by
  constructor
  · rintro ⟨part, hpart, map, hmap, source, hsource, hrooted⟩
    obtain ⟨entry, hentry, rfl⟩ := List.mem_map.mp hpart
    obtain ⟨input, hinput, own, hown, hsources, hroot, -⟩ :=
      Forall₂.exists_of_mem_right hparts hentry
    obtain rfl := Option.some.inj (hown.symm.trans hmap)
    rw [hsources, List.mem_singleton] at hsource
    rw [hroot, hsource] at hrooted
    exact ⟨input, hinput, (Except.ok.inj hrooted).symm⟩
  · rintro ⟨input, hinput, rfl⟩
    obtain ⟨entry, hentry, own, hown, hsources, hroot, -⟩ :=
      Forall₂.exists_of_mem_left hparts hinput
    have hlisted : nameOf input ∈ own.sources := by
      rw [hsources]
      exact List.mem_singleton_self _
    exact ⟨entry.2, List.mem_map_of_mem hentry, own, hown, _, hlisted, by rw [hroot]; rfl⟩

/-- The map of an asset whose inputs are only rebased lists the names of the inputs. -/
theorem sources_of_build
    {name output text : Text} {inputs : List Input} {map : Option SourceMap}
    {before after : Workspace} (hmaps : packer.options.sourceMap = true) (hsome : inputs ≠ [])
    (hinputs : ∀ input ∈ inputs, packer.IsOnlyRebased input)
    (hruns : Runs (packer.build name inputs output) before (.ok (text, map)) after) :
    ∃ whole, map = some whole ∧ whole.root = .null ∧
      ∀ listed, listed ∈ whole.sources ↔
        ∃ input ∈ inputs, listed = nameBeside before.files.current output input.path := by
  unfold build at hruns
  obtain ⟨_, logged, hlogged, hruns⟩ := exists_of_bind hruns
  have hcurrent := (blind_log _ _).current hlogged
  obtain ⟨built, _, hbuilt, hruns⟩ := exists_of_bind hruns
  have hparts := hasSource_of_buildParts hmaps hinputs hbuilt
  rw [hcurrent] at hparts
  have hjoinable : ∀ part ∈ built.map Prod.snd, ∀ map, part.map = some map → map.Joinable := by
    intro part hpart map hmap
    obtain ⟨entry, hentry, rfl⟩ := List.mem_map.mp hpart
    obtain ⟨input, -, own, hown, -, -, hjoinable⟩ := Forall₂.exists_of_mem_right hparts hentry
    obtain rfl := Option.some.inj (hown.symm.trans hmap)
    exact hjoinable
  have hany : (built.map Prod.snd).any (·.map.isSome) = true := by
    obtain ⟨input, hinput⟩ := List.exists_mem_of_ne_nil inputs hsome
    obtain ⟨entry, hentry, own, hown, -⟩ := Forall₂.exists_of_mem_left hparts hinput
    exact List.any_eq_true.mpr ⟨entry.2, List.mem_map_of_mem hentry, by rw [hown]; rfl⟩
  obtain ⟨whole, _, hconcat, -, -, -, hroot, hlisted, -⟩ :=
    SourceMap.exists_concat (.string (Path.basename name)) hjoinable
  simp only [hmaps, Bool.true_and, hany, if_true, hconcat] at hruns
  obtain ⟨other, hother, hruns⟩ := exists_of_lift_bind hruns
  obtain rfl := Except.ok.inj hother
  obtain ⟨hpair, -⟩ := eq_of_pure hruns
  exact ⟨whole, (Prod.mk.inj hpair).2.symm, hroot, fun listed =>
    (hlisted listed).trans (exists_source_iff hparts listed)⟩

end Packer

end UrlRebase
