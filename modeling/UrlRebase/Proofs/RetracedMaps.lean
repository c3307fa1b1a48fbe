import UrlRebase.Proofs.ReusableMaps
import UrlRebase.Proofs.TracedEdits

/-!
# Tracing an edited text

A text that was edited can be traced by its edited map: every position has an origin, so the
text can be edited once more.  The start of a reference leads where it led before, and from the
same root, unless a carried mapping took the place of its anchor.
-/

namespace UrlRebase

namespace Lineage

/-- Whether the map of a text, if it has one, lists the sources of all its mappings. -/
def Traceable (lineage : Lineage) : Prop :=
  ∀ map, lineage.map = some map → ∀ mapping ∈ map.mappings, mapping.InRange map.sources.length

theorem Sound.traceable {lineage : Lineage} (h : lineage.Sound) : lineage.Traceable :=
  fun map hmap => (h map hmap).inRange

theorem Traceable.exists_origin {lineage : Lineage} (h : lineage.Traceable) (position : Position) :
    ∃ origin, lineage.origin position = .ok origin := by
  unfold origin
  cases hmap : lineage.map with
  | none => exact ⟨_, rfl⟩
  | some map =>
      cases hnearest : nearest? map.mappings position with
      | none => exact ⟨lineage.here position false, by simp only [hnearest]⟩
      | some mapping =>
          cases hindex : mapping.source with
          | none => exact ⟨lineage.here position false, by simp only [hnearest, hindex]⟩
          | some index =>
              obtain ⟨hnonneg, hlt⟩ := h map hmap mapping (nearest?_eq_some hnearest).1 index hindex
              obtain ⟨source, hsource⟩ := SourceMap.exists_entry hnonneg hlt
              refine ⟨⟨source, mapping.line, mapping.column, some index, mapping.name, true⟩, ?_⟩
              simp only [hnearest, hindex, hsource]

/-- The root that the sources of a text's map are relative to. -/
def root (lineage : Lineage) : Json :=
  (lineage.map.map SourceMap.root).getD .null

/-- A map has an origin of its own for a position, or leads it to the text under whatever name
the text has. -/
theorem origin_of_renamed
    {map : SourceMap} {own : Text} {position : Position} {origin : Origin}
    (h : Lineage.origin ⟨some map, own⟩ position = .ok origin) (own' : Text) :
    ∃ origin', Lineage.origin ⟨some map, own'⟩ position = .ok origin' ∧
      (origin.mapped = true ∧ origin' = origin ∨
        origin'.mapped = false ∧ origin.source = own) := by
  unfold Lineage.origin at *
  simp only at *
  split at h
  · obtain rfl := Except.ok.inj h
    exact ⟨_, rfl, .inr ⟨rfl, rfl⟩⟩
  · split at h
    · obtain rfl := Except.ok.inj h
      exact ⟨_, rfl, .inr ⟨rfl, rfl⟩⟩
    · split at h
      · cases h
      · obtain rfl := Except.ok.inj h
        exact ⟨_, rfl, .inl ⟨rfl, rfl⟩⟩

end Lineage

namespace Edit

variable {text : Text} {edits : List Edit} {lineage : Lineage} {granularity : Granularity}
  {edited : SourceMap}

/-! ## Texts that are edited once more -/

theorem exists_anchors
    (h : lineage.Traceable) (edits : List Edit) (map : SourceMap) (places : List (Nat × Nat)) :
    ∃ anchored, anchors edits lineage map places = .ok anchored := by
  induction places generalizing map with
  | nil => exact ⟨_, rfl⟩
  | cons place rest ih =>
      obtain ⟨origin, horigin⟩ := h.exists_origin ⟨place.1, place.2⟩
      obtain ⟨first, hfirst⟩ : ∃ first, anchor edits lineage map place.1 place.2 = .ok first := by
        unfold anchor
        exact ⟨_, Except.bind_eq_ok.mpr ⟨origin, horigin, rfl⟩⟩
      obtain ⟨others, hothers⟩ := ih first.2
      exact ⟨_, Except.bind_eq_ok.mpr ⟨first, hfirst, Except.bind_eq_ok.mpr ⟨others, hothers, rfl⟩⟩⟩

/-- A text that can be traced has an edited map. -/
theorem exists_editedMap
    (h : lineage.Traceable) (text : Text) (edits : List Edit) (granularity : Granularity) :
    ∃ edited, editedMap text edits lineage granularity = .ok edited := by
  obtain ⟨anchored, hanchored⟩ :=
    exists_anchors h edits (baseMap text lineage) (anchorPlaces granularity edits)
  exact ⟨_, Except.bind_eq_ok.mpr ⟨anchored, hanchored, rfl⟩⟩

/-- An edited text can be traced by its map. -/
theorem traceable_editedMap
    (hedits : edits.map token = Token.scan text) (hlineage : lineage.Sound)
    (hedited : editedMap text edits lineage granularity = .ok edited) (own : Text) :
    Lineage.Traceable ⟨some edited, own⟩ := by
  rintro map hmap mapping hmapping
  obtain rfl := Option.some.inj hmap
  obtain ⟨added, edited', hedited', hmappings, hlisted, hadded⟩ :=
    editedMap_spec hlineage text edits granularity
  obtain rfl := Except.ok.inj (hedited.symm.trans hedited')
  rw [hmappings, mem_sort_eraseDups_iff hadded] at hmapping
  rcases hmapping with hcarried | ⟨place, -, hanchor⟩
  · intro index hindex
    obtain ⟨hnonneg, hlt⟩ := inRange_baseMappings hlineage hcarried index hindex
    have hle := hlisted.length_le
    exact ⟨hnonneg, by omega⟩
  · exact (wellFormed_anchor (hedits ▸ .refl _) hlineage hanchor).inRange

theorem root_editedMap (hedited : editedMap text edits lineage granularity = .ok edited) :
    edited.root = lineage.root := by
  rw [(editedMap_carries hedited).root, baseMap, Lineage.root]
  cases lineage.map <;> rfl

/-! ## Starts of references -/

/-- The start of a reference leads where it led before the edits, unless its anchor is
overridden. -/
theorem exists_samePlace
    (hedits : edits.map token = Token.scan text) (htext : ∀ edit ∈ edits, edit.text ≠ [])
    (hlineage : lineage.Sound) (hedited : editedMap text edits lineage granularity = .ok edited)
    {edit : Edit} (hedit : edit ∈ edits) {origin : Origin}
    (horigin : lineage.origin ⟨edit.token.place.line, edit.token.place.column⟩ = .ok origin)
    (hkept : ¬Overridden text edits lineage edit.token.place.line edit.token.place.column) :
    ∃ after, Lineage.origin ⟨some edited, lineage.source⟩
        (moved edits ⟨edit.token.place.line, edit.token.place.column⟩) = .ok after ∧
      after.SamePlace origin := by
  have horder := inOrder_of_scan hedits
  obtain ⟨added, edited', hedited', hmappings, hlisted, hadded⟩ :=
    editedMap_spec hlineage text edits granularity
  obtain rfl := Except.ok.inj (hedited.symm.trans hedited')
  obtain ⟨anchor, hmem, origin', horigin', hanchored, index, hindex, hentry⟩ :=
    Forall₂.exists_of_mem_left hadded (start_mem_anchorPlaces hedit granularity)
  obtain rfl := Except.ok.inj (horigin.symm.trans horigin')
  have hgenerated : anchor.generated =
      moved edits ⟨edit.token.place.line, edit.token.place.column⟩ := by
    rw [hanchored]
    rfl
  have hunique : ∀ other ∈ added, other.generated = anchor.generated → other = anchor := by
    intro other hother hexact
    obtain ⟨place, -, hisOther⟩ := Forall₂.exists_of_mem_right hadded hother
    rw [hisOther.eq_of_start horder htext hedit horigin (hexact.trans hgenerated), hanchored]
  rw [← hgenerated]
  by_cases hcarried : anchor ∈ baseMappings text edits lineage
  · obtain ⟨after, hafter, hafter'⟩ :=
      origin_of_dropped hlineage hmappings hlisted hcarried hunique
    refine ⟨after, hafter', ?_⟩
    by_contra hdiffers
    rw [hanchored] at hcarried hafter
    exact hkept ⟨origin, after, horigin, hcarried, hafter, hdiffers⟩
  · have hnearest := Lineage.nearest?_eraseDups_of_notMem hmem hcarried rfl hunique
    rw [← hmappings] at hnearest
    refine ⟨_, Lineage.origin_of_nearest hnearest hindex hentry lineage.source, ?_⟩
    rw [hanchored]
    exact ⟨rfl, rfl, rfl⟩

/-- Without a map no anchor is overridden. -/
theorem not_overridden_of_no_map
    (text : Text) (edits : List Edit) (own : Text) (line column : Nat) :
    ¬Overridden text edits ⟨none, own⟩ line column := by
  rintro ⟨origin, after, horigin, hcarried, hafter, hdiffers⟩
  obtain rfl := Except.ok.inj horigin
  have hshape : ∀ mapping ∈ baseMappings text edits ⟨none, own⟩, ∃ n : Nat,
      mapping = { generated := ⟨n, 0⟩, source := some 0, line := some n, column := some 0 } := by
    intro mapping hmapping
    rw [baseMappings, SourceMap.ofLines, SourceMap.ofParts, Mapping.sort, List.mem_mergeSort]
      at hmapping
    obtain ⟨n, -, rfl⟩ := List.mem_map.mp hmapping
    exact ⟨n, rfl⟩
  -- The mapping that counts at the anchor stands exactly there, so it is the anchor itself.
  obtain ⟨last, hlast⟩ := exists_nearest?_of_mem (List.mem_eraseDups.mpr hcarried)
  have hexact := hlast
  rw [Lineage.nearest?_sort_of_exact ⟨_, List.mem_eraseDups.mpr hcarried, rfl⟩] at hexact
  obtain ⟨hlastMem, hlastAt⟩ := List.mem_filter.mp (List.mem_of_getLast? hexact)
  obtain ⟨n, hn⟩ := hshape _ hcarried
  obtain ⟨m, rfl⟩ := hshape _ (List.mem_eraseDups.mp hlastMem)
  have hsame : m = n := by
    have hline := congrArg Position.line (of_decide_eq_true hlastAt)
    rw [hn] at hline
    exact Int.ofNat_inj.mp hline
  have hentry : SourceMap.entry? (carriedMap text edits ⟨none, own⟩).sources 0 = some own := rfl
  have horigin' : Lineage.origin ⟨some (carriedMap text edits ⟨none, own⟩), own⟩ _ = .ok _ :=
    Lineage.origin_of_nearest hlast rfl hentry own
  obtain rfl := Except.ok.inj (hafter.symm.trans horigin')
  refine hdiffers ⟨rfl, ?_, ?_⟩
  · rw [hsame]
    exact (congrArg Mapping.line hn).symm
  · exact (congrArg Mapping.column hn).symm

end Edit

end UrlRebase
