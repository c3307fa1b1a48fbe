import UrlRebase.Edit.EditedMap
import UrlRebase.Proofs.AcceptedMap
import UrlRebase.Proofs.ColumnShift

/-!
# The anchors of an edited text

Every position of a text has an origin if the map of the text was read.  So each place
that is to get an anchor gets one, and its source is among the sources of the edited map:
it is one of the text's own map, or the text itself, which is added once.
-/

namespace UrlRebase

theorem Forall₂.exists_of_mem_right
    {α β : Type} {r : α → β → Prop} {left : List α} {right : List β} {b : β}
    (h : List.Forall₂ r left right) (hb : b ∈ right) :
    ∃ a ∈ left, r a b := by
  induction h with
  | nil => simp at hb
  | @cons a b' left right hab hrest ih =>
      rcases List.mem_cons.mp hb with rfl | hb
      · exact ⟨a, List.mem_cons_self, hab⟩
      · obtain ⟨a', hmem, hr⟩ := ih hb
        exact ⟨a', List.mem_cons_of_mem a hmem, hr⟩

theorem Forall₂.exists_of_mem_left
    {α β : Type} {r : α → β → Prop} {left : List α} {right : List β} {a : α}
    (h : List.Forall₂ r left right) (ha : a ∈ left) :
    ∃ b ∈ right, r a b :=
  exists_of_mem_right h.flip ha

namespace SourceMap

theorem internSource_spec (map : SourceMap) (source : Text) (content : Json) :
    ∃ map', map.internSource source content = (map.sources.idxOf source, map') ∧
      map.sources <+: map'.sources ∧ source ∈ map'.sources ∧
      map'.sources.idxOf source = map.sources.idxOf source := by
  have hindex := List.idxOf_eq_getD_idxOf? source map.sources
  unfold internSource
  cases hfound : map.sources.idxOf? source with
  | some index =>
      have hmem : source ∈ map.sources := by
        by_contra hnot
        rw [List.idxOf?_eq_none_iff.mpr hnot] at hfound
        simp at hfound
      rw [hfound] at hindex
      exact ⟨map, by rw [hindex]; rfl, List.prefix_rfl, hmem, rfl⟩
  | none =>
      have hnot : source ∉ map.sources := List.idxOf?_eq_none_iff.mp hfound
      rw [hfound] at hindex
      refine ⟨_, by rw [hindex]; rfl, List.prefix_append _ _, by simp, ?_⟩
      rw [List.idxOf_append_of_notMem hnot, List.idxOf_cons_self, hindex]
      rfl

theorem entry_of_listed
    {sources sources' : List Text} {index : Int} {source : Text}
    (hgrows : sources <+: sources') (hnonneg : 0 ≤ index)
    (h : entry? sources index = some source) :
    entry? sources' index = some source := by
  unfold entry? at *
  rw [if_pos hnonneg] at *
  obtain ⟨more, rfl⟩ := hgrows
  obtain ⟨hlength, -⟩ := List.getElem?_eq_some_iff.mp h
  rw [List.getElem?_append_left hlength, h]

theorem exists_entry
    {sources : List Text} {index : Int} (hnonneg : 0 ≤ index) (hlt : index < sources.length) :
    ∃ source, entry? sources index = some source := by
  unfold entry?
  rw [if_pos hnonneg]
  exact ⟨_, List.getElem?_eq_getElem (by omega)⟩

theorem entry_idxOf {sources : List Text} {source : Text} (hmem : source ∈ sources) :
    entry? sources (sources.idxOf source) = some source := by
  have hlength := List.idxOf_lt_length_of_mem hmem
  unfold entry?
  rw [if_pos (Int.natCast_nonneg _), Int.toNat_natCast,
    List.getElem?_eq_getElem hlength, List.getElem_idxOf]

end SourceMap

namespace Lineage

/-- Whether the map of a text, if it has one, is one that was read. -/
def Sound (lineage : Lineage) : Prop :=
  ∀ map, lineage.map = some map → map.Accepted

theorem Sound.exists_source
    {lineage : Lineage} {map : SourceMap} {position : Position} {mapping : Mapping}
    {index : Int} (hlineage : lineage.Sound) (hmap : lineage.map = some map)
    (hnearest : nearest? map.mappings position = some mapping)
    (hindex : mapping.source = some index) :
    0 ≤ index ∧ ∃ source, SourceMap.entry? map.sources index = some source := by
  have hmem := List.takeWhile_subset _ (List.mem_of_getLast? hnearest)
  obtain ⟨hnonneg, hlt⟩ := (hlineage map hmap).inRange mapping hmem index hindex
  exact ⟨hnonneg, SourceMap.exists_entry hnonneg hlt⟩

/-- The origin of a position in a text whose map was read is the position itself, or the
one of the mapping that counts for it, the source of which is listed. -/
theorem Sound.origin_cases
    {lineage : Lineage} (hlineage : lineage.Sound) (position : Position) :
    lineage.origin position = .ok (lineage.here position lineage.map.isNone) ∨
      ∃ map mapping index source, lineage.map = some map ∧
        nearest? map.mappings position = some mapping ∧ mapping.source = some index ∧
        0 ≤ index ∧ SourceMap.entry? map.sources index = some source ∧
        lineage.origin position = .ok
          { source
            line := mapping.line
            column := mapping.column
            sourceIndex := some index
            name := mapping.name } := by
  unfold origin
  cases hmap : lineage.map with
  | none => exact .inl rfl
  | some map =>
      cases hnearest : nearest? map.mappings position with
      | none =>
          left
          simp only [hnearest, Option.isNone_some]
      | some mapping =>
          cases hindex : mapping.source with
          | none =>
              left
              simp only [hnearest, hindex, Option.isNone_some]
          | some index =>
              obtain ⟨hnonneg, source, hsource⟩ := hlineage.exists_source hmap hnearest hindex
              refine .inr ⟨map, mapping, index, source, rfl, hnearest, hindex, hnonneg,
                hsource, ?_⟩
              simp only [hnearest, hindex, hsource]

end Lineage

namespace Edit

def anchored (text : Text) (edits : List Edit) (lineage : Lineage) (line column : Nat)
    (origin : Origin) : Mapping where
  generated := ⟨line, shift edits line column⟩
  source := some
    (origin.sourceIndex.getD ((baseMap text lineage).sources.idxOf lineage.source : Nat))
  line := origin.line
  column := origin.column
  name := origin.name

/-- The anchor of a place in a map with the given sources. -/
def IsAnchor (text : Text) (edits : List Edit) (lineage : Lineage) (sources : List Text)
    (place : Nat × Nat) (mapping : Mapping) : Prop :=
  ∃ origin, lineage.origin ⟨place.1, place.2⟩ = .ok origin ∧
    mapping = anchored text edits lineage place.1 place.2 origin ∧
    ∃ index, mapping.source = some index ∧
      SourceMap.entry? sources index = some origin.source

/-- A map to which at most a text was added as a source. -/
structure Grown (base map : SourceMap) (source : Text) : Prop where
  listed : base.sources <+: map.sources
  index : map.sources.idxOf source = base.sources.idxOf source

section Anchors

variable {text : Text} {edits : List Edit} {lineage : Lineage} {map : SourceMap}

theorem anchor_spec
    (hlineage : lineage.Sound) (hmap : Grown (baseMap text lineage) map lineage.source)
    (place : Nat × Nat) :
    ∃ mapping map', anchor edits lineage map place.1 place.2 = .ok (mapping, map') ∧
      map.sources <+: map'.sources ∧ Grown (baseMap text lineage) map' lineage.source ∧
      ∀ sources, map'.sources <+: sources →
        IsAnchor text edits lineage sources place mapping := by
  rcases hlineage.origin_cases ⟨place.1, place.2⟩ with
    horigin |
      ⟨incoming, mapping, index, source, hincoming, -, -, hnonneg, hsource, horigin⟩
  · obtain ⟨map', hintern, hlisted, hmem, hindex⟩ :=
      map.internSource_spec lineage.source .null
    have hgrown : Grown (baseMap text lineage) map' lineage.source :=
      ⟨hmap.listed.trans hlisted, hindex.trans hmap.index⟩
    refine ⟨anchored text edits lineage place.1 place.2
      (lineage.here ⟨place.1, place.2⟩ lineage.map.isNone), map', ?_, hlisted, hgrown, ?_⟩
    · simp only [anchor, horigin, bind, Except.bind, pure, Except.pure, Lineage.here, hintern,
        hmap.index, anchored, Option.getD_none]
    · intro sources hgrows
      refine ⟨_, horigin, rfl, _, rfl, ?_⟩
      have hentry := SourceMap.entry_of_listed hgrows (Int.natCast_nonneg _)
        (SourceMap.entry_idxOf hmem)
      rwa [hgrown.index] at hentry
  · have hbase : (baseMap text lineage).sources = incoming.sources := by
      simp only [baseMap, hincoming, SourceMap.ofParts]
    refine ⟨anchored text edits lineage place.1 place.2
      { source, line := mapping.line, column := mapping.column, sourceIndex := some index,
        name := mapping.name }, map, ?_, List.prefix_rfl, hmap, ?_⟩
    · simp only [anchor, horigin, bind, Except.bind, pure, Except.pure]
      rfl
    · intro sources hgrows
      refine ⟨_, horigin, rfl, index, rfl, ?_⟩
      have hlisted := hmap.listed
      rw [hbase] at hlisted
      exact SourceMap.entry_of_listed (hlisted.trans hgrows) hnonneg hsource

theorem anchors_spec
    (hlineage : lineage.Sound) (hmap : Grown (baseMap text lineage) map lineage.source)
    (places : List (Nat × Nat)) :
    ∃ added map', anchors edits lineage map places = .ok (added, map') ∧
      map.sources <+: map'.sources ∧
      List.Forall₂ (IsAnchor text edits lineage map'.sources) places added := by
  induction places generalizing map with
  | nil => exact ⟨[], map, rfl, List.prefix_rfl, .nil⟩
  | cons place rest ih =>
      obtain ⟨mapping, map', hanchor, hlisted, hgrown, hmapping⟩ :=
        anchor_spec hlineage hmap place
      obtain ⟨added, map'', hanchors, hlisted', hadded⟩ := ih hgrown
      refine ⟨mapping :: added, map'', ?_, hlisted.trans hlisted', ?_⟩
      · rw [anchors, hanchor]
        simp only [bind, Except.bind, hanchors, pure, Except.pure]
      · exact .cons (hmapping _ hlisted') hadded

/-- The edited map sorts the carried mappings and the anchors, without repetitions. -/
theorem editedMap_spec
    (hlineage : lineage.Sound) (text : Text) (edits : List Edit) (granularity : Granularity) :
    ∃ added map, editedMap text edits lineage granularity = .ok map ∧
      map.mappings =
        Mapping.sort (baseMappings text edits lineage ++ added).eraseDups ∧
      (baseMap text lineage).sources <+: map.sources ∧
      List.Forall₂ (IsAnchor text edits lineage map.sources)
        (anchorPlaces granularity edits) added := by
  have hbase : Grown (baseMap text lineage) (baseMap text lineage) lineage.source :=
    ⟨List.prefix_rfl, rfl⟩
  obtain ⟨added, map, hanchors, hlisted, hadded⟩ :=
    anchors_spec hlineage hbase (anchorPlaces granularity edits)
  refine ⟨added, { map with
    mappings := Mapping.sort (baseMappings text edits lineage ++ added).eraseDups },
    ?_, rfl, hlisted, hadded⟩
  simp only [editedMap, hanchors, bind, Except.bind, pure, Except.pure]

end Anchors

end Edit

end UrlRebase
