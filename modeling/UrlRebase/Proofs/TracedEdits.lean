import UrlRebase.Proofs.MovedPositions

/-!
# Origins after edits

Tracing a position of the edited text by the edited map should lead where the position led
before the edits.  It does for each position outside the payloads that a mapping counts for,
as long as no two carried mappings are the same: an anchor that comes between them has
itself the origin of that mapping.

The start of a reference gets an anchor of its own, which counts there unless it is dropped
as a repetition of a carried mapping.  Since the first of equal mappings is kept and the
last of those at one position counts, another carried mapping may count then.
-/

namespace UrlRebase

/-- Whether two origins are the same place of the same source. -/
def Origin.SamePlace (origin origin' : Origin) : Prop :=
  origin.source = origin'.source ∧ origin.line = origin'.line ∧ origin.column = origin'.column

namespace Lineage

theorem origin_of_nearest
    {map : SourceMap} {position : Position} {mapping : Mapping} {index : Int} {source : Text}
    (hnearest : nearest? map.mappings position = some mapping)
    (hindex : mapping.source = some index)
    (hsource : SourceMap.entry? map.sources index = some source) (own : Text) :
    Lineage.origin ⟨some map, own⟩ position = .ok
      { source
        line := mapping.line
        column := mapping.column
        sourceIndex := some index
        name := mapping.name } := by
  unfold origin
  simp only [hnearest, hindex, hsource]

/-- Sources that are added to a map change no origin. -/
theorem origin_of_listed
    {map map' : SourceMap} {position : Position} {mapping : Mapping}
    (hnearest : nearest? map.mappings position = some mapping)
    (hnearest' : nearest? map'.mappings position = some mapping)
    (hrange : mapping.InRange map.sources.length) (hlisted : map.sources <+: map'.sources)
    (own : Text) :
    ∃ origin, Lineage.origin ⟨some map, own⟩ position = .ok origin ∧
      Lineage.origin ⟨some map', own⟩ position = .ok origin := by
  cases hindex : mapping.source with
  | none =>
      refine ⟨Lineage.here ⟨none, own⟩ position false, ?_, ?_⟩
      · unfold origin
        simp only [hnearest, hindex]
        rfl
      · unfold origin
        simp only [hnearest', hindex]
        rfl
  | some index =>
      obtain ⟨hnonneg, hlt⟩ := hrange index hindex
      obtain ⟨source, hsource⟩ := SourceMap.exists_entry hnonneg hlt
      exact ⟨_, origin_of_nearest hnearest hindex hsource own,
        origin_of_nearest hnearest' hindex
          (SourceMap.entry_of_listed hlisted hnonneg hsource) own⟩

/-- A mapping that counts for a position counts for all between itself and the position. -/
theorem nearest?_of_between
    {mappings : List Mapping} {position position' : Position} {mapping : Mapping}
    (hsorted : Mapping.Sorted mappings)
    (hnearest : nearest? mappings position = some mapping)
    (hmapping : mapping.generated.le position' = true)
    (hposition : position'.le position = true) :
    nearest? mappings position' = some mapping := by
  have hsplit := List.takeWhile_append_dropWhile
    (p := fun mapping : Mapping => mapping.generated.le position) (l := mappings)
  obtain ⟨before, hbefore⟩ := List.getLast?_eq_some_iff.mp hnearest
  have hall : ∀ other ∈ before ++ [mapping], other.generated.le position' = true := by
    rw [← hsplit, hbefore] at hsorted
    have hfront := (List.pairwise_append.mp hsorted).1
    intro other hother
    rcases List.mem_append.mp hother with hother | hother
    · have hle := (List.pairwise_append.mp hfront).2.2 other hother mapping
        (List.mem_singleton_self mapping)
      exact Position.le_trans hle hmapping
    · rwa [List.mem_singleton.mp hother]
  have hnone : nearest? (mappings.dropWhile fun mapping : Mapping =>
      mapping.generated.le position) position' = none := by
    unfold nearest?
    cases hdrop : mappings.dropWhile fun mapping : Mapping =>
        mapping.generated.le position with
    | nil => rfl
    | cons other rest =>
        have hnot := List.head?_dropWhile_not
          (fun mapping : Mapping => mapping.generated.le position) mappings
        rw [hdrop] at hnot
        rw [List.takeWhile_cons_of_neg]
        · rfl
        · intro hle
          have hle' := Position.le_trans hle hposition
          simp [hle'] at hnot
  rw [← hsplit, hbefore, nearest?_append_of_le hall, hnone, List.getLast?_append]
  rfl

/-- What counts in the edited map: a carried mapping, or an anchor behind it that is none. -/
theorem nearest?_sort_eraseDups_append
    (left right : List Mapping) (position : Position) :
    nearest? (Mapping.sort (left ++ right).eraseDups) position =
      later? (nearest? (Mapping.sort left.eraseDups) position)
        (nearest? (Mapping.sort (right.removeAll left).eraseDups) position) := by
  rw [List.eraseDups_append, nearest?_sort_append]

theorem mem_of_nearest?_removeAll
    {left right : List Mapping} {position : Position} {mapping : Mapping}
    (h : nearest? (Mapping.sort (right.removeAll left).eraseDups) position = some mapping) :
    mapping ∈ right ∧ mapping.generated.le position = true := by
  obtain ⟨hmem, hle⟩ := nearest?_eq_some h
  rw [Mapping.sort, List.mem_mergeSort, List.mem_eraseDups] at hmem
  exact ⟨List.mem_of_mem_filter hmem, hle⟩

section Repetition

variable {left right : List Mapping} {position : Position} {mapping : Mapping}

theorem nearest?_eraseDups_eq_getLast?
    (hmem : mapping ∈ left ++ right) (hexact : mapping.generated = position) :
    nearest? (Mapping.sort (left ++ right).eraseDups) position =
      (((right.removeAll left).eraseDups.filter (·.generated = position)).getLast?).or
        (left.eraseDups.filter (·.generated = position)).getLast? := by
  rw [nearest?_sort_of_exact ⟨mapping, List.mem_eraseDups.mpr hmem, hexact⟩,
    List.eraseDups_append, List.filter_append, List.getLast?_append]

/-- The only one of the added mappings at a position counts there if it is none of those
before it. -/
theorem nearest?_eraseDups_of_notMem
    (hmem : mapping ∈ right) (hnot : mapping ∉ left) (hexact : mapping.generated = position)
    (hunique : ∀ other ∈ right, other.generated = position → other = mapping) :
    nearest? (Mapping.sort (left ++ right).eraseDups) position = some mapping := by
  rw [nearest?_eraseDups_eq_getLast? (List.mem_append_right left hmem) hexact]
  have hkept : mapping ∈ (right.removeAll left).eraseDups.filter (·.generated = position) := by
    refine List.mem_filter.mpr ⟨List.mem_eraseDups.mpr (List.mem_filter.mpr ⟨hmem, ?_⟩), ?_⟩
    · simpa using hnot
    · simpa using hexact
  have hlast := List.getLast?_eq_some_getLast (List.ne_nil_of_mem hkept)
  have hlastMem := List.mem_of_getLast? hlast
  rw [hlast, Option.some_or]
  obtain ⟨hlastMem, hlastExact⟩ := List.mem_filter.mp hlastMem
  have hlastRight := List.mem_of_mem_filter (List.mem_eraseDups.mp hlastMem)
  rw [hunique _ hlastRight (by simpa using hlastExact)]

/-- It is dropped if it is one of those before it, and they decide what counts. -/
theorem nearest?_eraseDups_of_mem
    (hmem : mapping ∈ left) (hexact : mapping.generated = position)
    (hunique : ∀ other ∈ right, other.generated = position → other = mapping) :
    nearest? (Mapping.sort (left ++ right).eraseDups) position =
      nearest? (Mapping.sort left.eraseDups) position := by
  have hnone : (right.removeAll left).eraseDups.filter (·.generated = position) = [] := by
    rw [List.filter_eq_nil_iff]
    intro other hother hposition
    obtain ⟨hright, hnot⟩ := List.mem_filter.mp (List.mem_eraseDups.mp hother)
    obtain rfl := hunique other hright (by simpa using hposition)
    simp [hmem] at hnot
  rw [nearest?_eraseDups_eq_getLast? (List.mem_append_left right hmem) hexact, hnone,
    nearest?_sort_of_exact ⟨mapping, List.mem_eraseDups.mpr hmem, hexact⟩]
  rfl

end Repetition

end Lineage

theorem eraseDups_of_nodup {mappings : List Mapping} (h : mappings.Nodup) :
    mappings.eraseDups = mappings := by
  induction mappings with
  | nil => rfl
  | cons mapping rest ih =>
      obtain ⟨hnot, hrest⟩ := List.nodup_cons.mp h
      have hfilter : rest.filter (fun other => !other == mapping) = rest := by
        rw [List.filter_eq_self]
        intro other hother
        have hne : other ≠ mapping := ne_of_mem_of_not_mem hother hnot
        simp [hne]
      rw [List.eraseDups_cons, hfilter, ih hrest]

namespace Edit

/-- An anchor between a mapping and a position that it counts for leads where they lead. -/
theorem IsAnchor.eq_of_between
    {text : Text} {edits : List Edit} {lineage : Lineage} {map : SourceMap}
    {sources : List Text} {place : Nat × Nat} {position : Position} {mapping anchor : Mapping}
    {index : Int} {source : Text} (hanchor : IsAnchor text edits lineage sources place anchor)
    (horder : InOrder edits) (htext : ∀ edit ∈ edits, edit.text ≠ [])
    (hplace : ¬Inside edits place.1 place.2)
    (hposition : ¬Inside edits position.line position.column)
    (hmap : lineage.map = some map) (hsorted : Mapping.Sorted map.mappings)
    (hnearest : Lineage.nearest? map.mappings position = some mapping)
    (hindex : mapping.source = some index)
    (hsource : SourceMap.entry? map.sources index = some source)
    (hbehind : (carried edits mapping).generated.le anchor.generated = true)
    (hbefore : anchor.generated.le (moved edits position) = true) :
    anchor = { mapping with generated := anchor.generated } := by
  obtain ⟨origin, horigin, hanchored, -⟩ := hanchor
  have hgenerated : anchor.generated = moved edits ⟨place.1, place.2⟩ := by
    rw [hanchored]
    rfl
  rw [hgenerated] at hbehind hbefore
  have hmapping : mapping.generated.le ⟨place.1, place.2⟩ = true :=
    le_of_moved_le_moved horder htext hplace hbehind
  have hle := le_of_moved_le_moved horder htext hposition hbefore
  have hcounts := Lineage.nearest?_of_between hsorted hnearest hmapping hle
  have horigin' := Lineage.origin_of_nearest hcounts hindex hsource lineage.source
  rw [← hmap, horigin] at horigin'
  rw [hanchored, Except.ok.inj horigin']
  simp only [anchored, Option.getD_some, hindex]

/-- The edited map leads each position outside the payloads that has an origin by a mapping
to that origin again, provided that the carried mappings are distinct. -/
theorem origin_of_editedMap
    {text : Text} {edits : List Edit} {map : SourceMap} {own : Text}
    (hedits : edits.map token = Token.scan text) (htext : ∀ edit ∈ edits, edit.text ≠ [])
    (hmap : map.Accepted) (hdistinct : (baseMappings text edits ⟨some map, own⟩).Nodup)
    (granularity : Granularity) :
    ∃ edited, editedMap text edits ⟨some map, own⟩ granularity = .ok edited ∧
      ∀ (line column : Int) (origin : Origin), ¬Inside edits line column →
        Lineage.origin ⟨some map, own⟩ ⟨line, column⟩ = .ok origin → origin.mapped = true →
          Lineage.origin ⟨some edited, own⟩ ⟨line, shift edits line column⟩ =
            .ok origin := by
  have horder := inOrder_of_scan hedits
  have hlineage : Lineage.Sound ⟨some map, own⟩ := by
    intro map' hmap'
    rwa [← Option.some.inj hmap']
  have hsorted : Mapping.Sorted map.mappings := by
    obtain ⟨mappings, hmappings⟩ := hmap.exists_sort
    rw [hmappings]
    exact Mapping.sorted_sort mappings
  obtain ⟨added, edited, hedited, hmappings, hlisted, hadded⟩ :=
    editedMap_spec hlineage text edits granularity
  refine ⟨edited, hedited, ?_⟩
  intro line column origin houtside horigin hmapped
  rcases hlineage.origin_cases ⟨line, column⟩ with hhere |
    ⟨map', mapping, index, source, hmap', hnearest, hindex, hnonneg, hsource, hcases⟩
  · rw [hhere] at horigin
    obtain rfl := Except.ok.inj horigin
    simp [Lineage.here] at hmapped
  · obtain rfl : map = map' := Option.some.inj hmap'
    rw [horigin] at hcases
    obtain rfl := Except.ok.inj hcases
    have hsource' : SourceMap.entry? edited.sources index = some source :=
      SourceMap.entry_of_listed hlisted hnonneg hsource
    have hcarried : Lineage.nearest? (map.mappings.map (carried edits))
        (moved edits ⟨line, column⟩) =
          (Lineage.nearest? map.mappings ⟨line, column⟩).map (carried edits) :=
      nearest?_carried horder htext houtside map.mappings
    have hbase : Lineage.nearest?
        (Mapping.sort (baseMappings text edits ⟨some map, own⟩).eraseDups)
        (moved edits ⟨line, column⟩) = some (carried edits mapping) := by
      rw [eraseDups_of_nodup hdistinct]
      refine Eq.trans ?_ (hcarried.trans (by rw [hnearest]; rfl))
      exact congrArg (Lineage.nearest? · _)
        (Mapping.sort_of_sorted (sorted_carried horder hsorted))
    have hcounts := Lineage.nearest?_sort_eraseDups_append
      (baseMappings text edits ⟨some map, own⟩) added (moved edits ⟨line, column⟩)
    rw [← hmappings, hbase] at hcounts
    -- An anchor that comes behind the carried mapping has its origin, so it may count.
    cases hlast : Lineage.nearest? (Mapping.sort (added.removeAll
        (baseMappings text edits ⟨some map, own⟩)).eraseDups)
        (moved edits ⟨line, column⟩) with
    | none =>
        rw [hlast, Lineage.later?_none] at hcounts
        exact Lineage.origin_of_nearest hcounts hindex hsource' own
    | some anchor =>
        rw [hlast, Lineage.later?] at hcounts
        split at hcounts
        · rename_i hbehind
          obtain ⟨hmem, hbefore⟩ := Lineage.mem_of_nearest?_removeAll hlast
          obtain ⟨place, hplace, hanchor⟩ := Forall₂.exists_of_mem_right hadded hmem
          have heq := hanchor.eq_of_between horder htext
            (horder.not_inside_of_mem_anchorPlaces hplace) houtside rfl hsorted hnearest
            hindex hsource hbehind hbefore
          rw [heq] at hcounts
          exact Lineage.origin_of_nearest hcounts hindex hsource' own
        · exact Lineage.origin_of_nearest hcounts hindex hsource' own

theorem origin_of_editedMap_behind_payload :
    ∃ edited,
      editedMap "url(a.png)".text (uniform "url(a.png)".text "b".text)
          ⟨some (.ofParts ["a.scss".text] [.ofRunning ⟨0, 0⟩ {} none] [] .null .null none),
            "a.css".text⟩ .start = .ok edited ∧
        Lineage.origin ⟨some edited, "a.css".text⟩ ⟨0, 5⟩ =
          .ok ⟨"a.scss".text, some 0, some 0, some 0, none, true⟩ := by
  have hread : Mapping.decode ⟨["a.scss".text].length, 0⟩ "AAAA".text =
      .ok [.ofRunning ⟨0, 0⟩ {} none] := by cbv
  have htext : ∀ edit ∈ uniform "url(a.png)".text "b".text, edit.text ≠ [] := by
    decide +kernel
  have hdistinct : (baseMappings "url(a.png)".text (uniform "url(a.png)".text "b".text)
      ⟨some (.ofParts ["a.scss".text] [.ofRunning ⟨0, 0⟩ {} none] [] .null .null none),
        "a.css".text⟩).Nodup := by
    decide +kernel
  obtain ⟨edited, hedited, horigin⟩ := origin_of_editedMap (map_token_uniform _ _) htext
    (SourceMap.accepted_of_decode hread) hdistinct .start
  have hshift : shift (uniform "url(a.png)".text "b".text) 0 9 = 5 := by decide +kernel
  have hbehind := horigin 0 9 ⟨"a.scss".text, some 0, some 0, some 0, none, true⟩
    (by decide +kernel) (by cbv) rfl
  rw [hshift] at hbehind
  exact ⟨edited, hedited, hbehind⟩

/-! ## The starts of references -/

/-- The map of the edited text without anchors. -/
def carriedMap (text : Text) (edits : List Edit) (lineage : Lineage) : SourceMap :=
  { baseMap text lineage with
    mappings := Mapping.sort (baseMappings text edits lineage).eraseDups }

/-- Whether the anchor of a place is a repetition of a carried mapping, so that it is dropped,
and the carried mappings lead the place elsewhere. -/
def Overridden (text : Text) (edits : List Edit) (lineage : Lineage) (line column : Nat) :
    Prop :=
  ∃ origin after, lineage.origin ⟨line, column⟩ = .ok origin ∧
    anchored text edits lineage line column origin ∈ baseMappings text edits lineage ∧
    Lineage.origin ⟨some (carriedMap text edits lineage), lineage.source⟩
      ⟨line, shift edits line column⟩ = .ok after ∧
    ¬after.SamePlace origin

theorem inRange_baseMappings
    {text : Text} {edits : List Edit} {lineage : Lineage} {mapping : Mapping}
    (hlineage : lineage.Sound) (hmapping : mapping ∈ baseMappings text edits lineage) :
    mapping.InRange (baseMap text lineage).sources.length := by
  unfold baseMappings baseMap at *
  cases hmap : lineage.map with
  | none =>
      simp only [hmap, SourceMap.ofLines, SourceMap.ofParts, Mapping.sort,
        List.mem_mergeSort, List.mem_map] at hmapping
      obtain ⟨line, -, rfl⟩ := hmapping
      intro index hindex
      obtain rfl := Option.some.inj hindex
      simp [SourceMap.ofLines, SourceMap.ofParts]
  | some map =>
      simp only [hmap, List.mem_map] at hmapping
      obtain ⟨original, horiginal, rfl⟩ := hmapping
      exact (hlineage map hmap).inRange original horiginal

theorem IsAnchor.eq_of_start
    {text : Text} {edits : List Edit} {lineage : Lineage} {sources : List Text}
    {place : Nat × Nat} {anchor : Mapping} {edit : Edit} {origin : Origin}
    (hanchor : IsAnchor text edits lineage sources place anchor)
    (horder : InOrder edits) (htext : ∀ edit ∈ edits, edit.text ≠ []) (hedit : edit ∈ edits)
    (horigin : lineage.origin ⟨edit.token.place.line, edit.token.place.column⟩ = .ok origin)
    (hgenerated : anchor.generated =
      moved edits ⟨edit.token.place.line, edit.token.place.column⟩) :
    anchor =
      anchored text edits lineage edit.token.place.line edit.token.place.column origin := by
  obtain ⟨origin', horigin', hanchored, -⟩ := hanchor
  have hposition : (⟨place.1, place.2⟩ : Position) =
      ⟨edit.token.place.line, edit.token.place.column⟩ := by
    apply horder.eq_start_of_moved_eq htext hedit
    rw [← hgenerated, hanchored]
    rfl
  rw [hposition, horigin] at horigin'
  obtain ⟨hline, hcolumn⟩ := Position.mk.inj hposition
  rw [hanchored, Except.ok.inj horigin', Int.ofNat_inj.mp hline, Int.ofNat_inj.mp hcolumn]

theorem start_mem_anchorPlaces
    {edits : List Edit} {edit : Edit} (hedit : edit ∈ edits) (granularity : Granularity) :
    (edit.token.place.line, edit.token.place.column) ∈ anchorPlaces granularity edits := by
  refine List.mem_flatMap.mpr ⟨edit, hedit, List.mem_map.mpr ⟨edit.token.place.column, ?_, rfl⟩⟩
  cases granularity <;> simp [Granularity.columns]

theorem exists_nearest?_of_mem
    {mappings : List Mapping} {mapping : Mapping} (hmem : mapping ∈ mappings) :
    ∃ last, Lineage.nearest? (Mapping.sort mappings) mapping.generated = some last := by
  have hkept : mapping ∈ mappings.filter (·.generated = mapping.generated) :=
    List.mem_filter.mpr ⟨hmem, decide_eq_true rfl⟩
  rw [Lineage.nearest?_sort_of_exact ⟨mapping, hmem, rfl⟩,
    List.getLast?_eq_some_getLast (List.ne_nil_of_mem hkept)]
  exact ⟨_, rfl⟩

/-- Where an anchor is dropped, the edited map leads as it would without anchors. -/
theorem origin_of_dropped
    {text : Text} {edits : List Edit} {lineage : Lineage} {added : List Mapping}
    {edited : SourceMap} {anchor : Mapping} (hlineage : lineage.Sound)
    (hmappings : edited.mappings =
      Mapping.sort (baseMappings text edits lineage ++ added).eraseDups)
    (hlisted : (baseMap text lineage).sources <+: edited.sources)
    (hcarried : anchor ∈ baseMappings text edits lineage)
    (hunique : ∀ other ∈ added, other.generated = anchor.generated → other = anchor) :
    ∃ after,
      Lineage.origin ⟨some (carriedMap text edits lineage), lineage.source⟩ anchor.generated =
        .ok after ∧
      Lineage.origin ⟨some edited, lineage.source⟩ anchor.generated = .ok after := by
  obtain ⟨mapping, hmapping⟩ : ∃ mapping, Lineage.nearest?
      (carriedMap text edits lineage).mappings anchor.generated = some mapping :=
    exists_nearest?_of_mem (List.mem_eraseDups.mpr hcarried)
  have hrange : mapping.InRange (carriedMap text edits lineage).sources.length := by
    have hmem := (Lineage.nearest?_eq_some hmapping).1
    rw [carriedMap, Mapping.sort, List.mem_mergeSort, List.mem_eraseDups] at hmem
    exact inRange_baseMappings hlineage hmem
  have hnearest := Lineage.nearest?_eraseDups_of_mem hcarried rfl hunique
  rw [← hmappings] at hnearest
  exact Lineage.origin_of_listed hmapping (hnearest.trans hmapping) hrange hlisted
    lineage.source

/-- The start of a reference leads where it led before the edits, unless its anchor is
overridden. -/
theorem samePlace_iff_not_overridden
    {text : Text} {edits : List Edit} {lineage : Lineage}
    (hedits : edits.map token = Token.scan text) (htext : ∀ edit ∈ edits, edit.text ≠ [])
    (hlineage : ∀ map, lineage.map = some map → map.Accepted) (granularity : Granularity) :
    ∃ edited, editedMap text edits lineage granularity = .ok edited ∧
      ∀ edit ∈ edits, ∃ origin after,
        lineage.origin ⟨edit.token.place.line, edit.token.place.column⟩ = .ok origin ∧
        Lineage.origin ⟨some edited, lineage.source⟩
          ⟨edit.token.place.line,
            shift edits edit.token.place.line edit.token.place.column⟩ = .ok after ∧
        (after.SamePlace origin ↔ ¬Overridden text edits lineage edit.token.place.line
          edit.token.place.column) := by
  have horder := inOrder_of_scan hedits
  obtain ⟨added, edited, hedited, hmappings, hlisted, hadded⟩ :=
    editedMap_spec hlineage text edits granularity
  refine ⟨edited, hedited, ?_⟩
  intro edit hedit
  obtain ⟨anchor, hmem, origin, horigin, hanchored, index, hindex, hentry⟩ :=
    Forall₂.exists_of_mem_left hadded (start_mem_anchorPlaces hedit granularity)
  have hgenerated : anchor.generated =
      moved edits ⟨edit.token.place.line, edit.token.place.column⟩ := by
    rw [hanchored]
    rfl
  -- All anchors at the place are this one, so it is dropped only for a carried mapping.
  have hunique : ∀ other ∈ added, other.generated = anchor.generated → other = anchor := by
    intro other hother hexact
    obtain ⟨place, -, hisOther⟩ := Forall₂.exists_of_mem_right hadded hother
    rw [hisOther.eq_of_start horder htext hedit horigin (hexact.trans hgenerated), hanchored]
  by_cases hcarried : anchor ∈ baseMappings text edits lineage
  · obtain ⟨after, hafter, hafter'⟩ :=
      origin_of_dropped hlineage hmappings hlisted hcarried hunique
    rw [hgenerated] at hafter hafter'
    refine ⟨origin, after, horigin, hafter', ?_⟩
    constructor
    · rintro hsame ⟨origin', other, horigin', -, hother, hdiffers⟩
      obtain rfl := Except.ok.inj (horigin.symm.trans horigin')
      obtain rfl := Except.ok.inj (hafter.symm.trans hother)
      exact hdiffers hsame
    · intro hnot
      by_contra hdiffers
      rw [hanchored] at hcarried
      exact hnot ⟨origin, after, horigin, hcarried, hafter, hdiffers⟩
  · have hnearest := Lineage.nearest?_eraseDups_of_notMem hmem hcarried rfl hunique
    rw [← hmappings, hgenerated] at hnearest
    have hafter := Lineage.origin_of_nearest hnearest hindex hentry lineage.source
    refine ⟨origin, _, horigin, hafter, ?_⟩
    constructor
    · rintro - ⟨origin', -, horigin', hrepeated, -⟩
      obtain rfl := Except.ok.inj (horigin.symm.trans horigin')
      rw [hanchored] at hcarried
      exact hcarried hrepeated
    · intro
      rw [hanchored]
      exact ⟨rfl, rfl, rfl⟩

theorem samePlace_of_no_map :
    ∃ edited,
      editedMap "url(a.png)".text (uniform "url(a.png)".text "b".text) ⟨none, "a.css".text⟩
          .startAndEnd = .ok edited ∧
        ∀ edit ∈ uniform "url(a.png)".text "b".text, ∃ origin after,
          Lineage.origin ⟨none, "a.css".text⟩
            ⟨edit.token.place.line, edit.token.place.column⟩ = .ok origin ∧
          Lineage.origin ⟨some edited, "a.css".text⟩ ⟨edit.token.place.line,
            shift (uniform "url(a.png)".text "b".text) edit.token.place.line
              edit.token.place.column⟩ = .ok after ∧
          (after.SamePlace origin ↔ ¬Overridden "url(a.png)".text
            (uniform "url(a.png)".text "b".text) ⟨none, "a.css".text⟩
              edit.token.place.line edit.token.place.column) :=
  samePlace_iff_not_overridden (map_token_uniform _ _) (by decide +kernel) (by simp) .startAndEnd

/-- A map that repeats a mapping behind another one at the start of a reference. -/
theorem exists_overridden :
    ∃ map : SourceMap, map.Accepted ∧
      Overridden "url(a.png)".text (uniform "url(a.png)".text "b".text)
        ⟨some map, "a.css".text⟩ 0 0 := by
  have hread : Mapping.decode ⟨["a.scss".text].length, 0⟩ "AAAA,AACA,AADA".text =
      .ok [.ofRunning ⟨0, 0⟩ {} none, .ofRunning ⟨0, 0⟩ ⟨0, 1, 0, 0⟩ none,
        .ofRunning ⟨0, 0⟩ {} none] := by cbv
  refine ⟨_, SourceMap.accepted_of_decode hread,
    ⟨"a.scss".text, some 0, some 0, some 0, none, true⟩,
    ⟨"a.scss".text, some 1, some 0, some 0, none, true⟩, by cbv, ?_, by cbv, ?_⟩
  · have hcarried : baseMappings "url(a.png)".text (uniform "url(a.png)".text "b".text)
        ⟨some (.ofParts ["a.scss".text]
          [.ofRunning ⟨0, 0⟩ {} none, .ofRunning ⟨0, 0⟩ ⟨0, 1, 0, 0⟩ none,
            .ofRunning ⟨0, 0⟩ {} none] [] .null .null none), "a.css".text⟩ =
        [.ofRunning ⟨0, 0⟩ {} none, .ofRunning ⟨0, 0⟩ ⟨0, 1, 0, 0⟩ none,
          .ofRunning ⟨0, 0⟩ {} none] := by cbv
    rw [hcarried]
    decide +kernel
  · rintro ⟨-, hline, -⟩
    simp at hline

end Edit

end UrlRebase
