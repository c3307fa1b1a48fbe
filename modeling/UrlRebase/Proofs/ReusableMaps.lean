import UrlRebase.Proofs.RefusedMappings
import UrlRebase.Proofs.RestoredMaps

/-!
# Edited maps as maps of a second pass

The map of an edited text is one that can be written and read again, so it can be the map of
the text in a second pass.  Its mappings are well-formed: columns never get negative under
edits, for they keep their order and the first column of a line stays, and anchors have the
sources that were listed for them.  The values that a map carries along stay what they are,
but for the contents of the source that is added.
-/

namespace UrlRebase

theorem List.nodup_eraseDups {α : Type} [BEq α] [LawfulBEq α] (entries : List α) :
    entries.eraseDups.Nodup := by
  induction hlength : entries.length using Nat.strong_induction_on generalizing entries with
  | _ n ih =>
      cases entries with
      | nil => simp
      | cons a rest =>
          rw [List.eraseDups_cons, List.nodup_cons]
          constructor
          · simp
          · have hle := List.length_filter_le (fun b => !b == a) rest
            rw [List.length_cons] at hlength
            exact ih _ (by omega) _ rfl

namespace Json

/-- So many arrays, each around the next one, around an empty one. -/
def nested : Nat → Json
  | 0 => .array []
  | depth + 1 => .array [nested depth]

theorem not_fits_nested (depth : Nat) : ¬(nested depth).Fits depth := by
  induction depth with
  | zero => rintro ⟨⟩
  | succ depth ih =>
      intro h
      cases h with
      | array hitems => exact ih (hitems _ List.mem_cons_self)

end Json

namespace Mapping

variable {limits : Limits} {mapping : Mapping}

theorem WellFormed.mono
    {limits' : Limits} (h : mapping.WellFormed limits) (hsources : limits.sources ≤ limits'.sources)
    (hnames : limits.names ≤ limits'.names) : mapping.WellFormed limits' := by
  cases h with
  | unmapped hline hcolumn => exact .unmapped hline hcolumn
  | mapped hline hcolumn hsource horigin hname =>
      refine .mapped hline hcolumn ⟨hsource.1, by omega⟩ horigin ?_
      intro index hindex
      obtain ⟨hnonneg, hlt⟩ := hname index hindex
      exact ⟨hnonneg, by omega⟩

theorem WellFormed.move
    (h : mapping.WellFormed limits) {column : Int} (hcolumn : 0 ≤ column) :
    WellFormed limits { mapping with generated := ⟨mapping.generated.line, column⟩ } := by
  cases h with
  | unmapped hline _ => exact .unmapped hline hcolumn
  | mapped hline _ hsource horigin hname => exact .mapped hline hcolumn hsource horigin hname

theorem WellFormed.column_nonneg (h : mapping.WellFormed limits) :
    0 ≤ mapping.generated.column := by
  cases h <;> assumption

end Mapping

namespace SourceMap

/-- A map with what another carries along, but for nulls that were added to its contents. -/
structure Carries (base map : SourceMap) : Prop where
  names : map.names = base.names
  file : map.file = base.file
  root : map.root = base.root
  contents : ∃ added, map.contents = base.contents.map (· ++ List.replicate added .null)

theorem Carries.refl (map : SourceMap) : Carries map map where
  names := rfl
  file := rfl
  root := rfl
  contents := ⟨0, by cases map.contents <;> simp⟩

theorem Carries.internSource {base map : SourceMap} (h : Carries base map) (source : Text) :
    Carries base (map.internSource source .null).2 := by
  unfold SourceMap.internSource
  split
  · exact h
  · obtain ⟨added, hadded⟩ := h.contents
    refine ⟨h.names, h.file, h.root, added + 1, ?_⟩
    rw [hadded, Option.map_map]
    simp [Function.comp_def, List.replicate_succ']

theorem fits_array_append_nulls (room : Nat) (items : List Json) (added : Nat) :
    (Json.array (items ++ List.replicate added .null)).Fits room ↔
      (Json.array items).Fits room := by
  constructor
  · intro h
    cases h with
    | array hitems => exact .array fun item hitem => hitems item (List.mem_append_left _ hitem)
  · intro h
    cases h with
    | array hitems =>
        refine .array fun item hitem => ?_
        rcases List.mem_append.mp hitem with hitem | hitem
        · exact hitems item hitem
        · rw [List.eq_of_mem_replicate hitem]
          exact .null

theorem Carries.fits_iff {base map : SourceMap} (h : Carries base map) : map.Fits ↔ base.Fits := by
  have hcontents : (∀ items, map.contents = some items →
      (Json.array items).Fits (Json.maxDepth - 1)) ↔
        ∀ items, base.contents = some items → (Json.array items).Fits (Json.maxDepth - 1) := by
    obtain ⟨added, hadded⟩ := h.contents
    rw [hadded]
    cases base.contents with
    | none => simp
    | some items => simp [fits_array_append_nulls]
  constructor
  · exact fun hfits => ⟨h.file ▸ hfits.file, h.root ▸ hfits.root, hcontents.mp hfits.contents⟩
  · exact fun hfits => ⟨h.file ▸ hfits.file, h.root ▸ hfits.root, hcontents.mpr hfits.contents⟩

end SourceMap

namespace Edit

open SourceMap

variable {text : Text} {edits : List Edit} {lineage : Lineage}

/-! ## What the edited map carries along -/

theorem anchor_carries
    {base map map' : SourceMap} {line column : Nat} {mapping : Mapping} (h : Carries base map)
    (hanchor : anchor edits lineage map line column = .ok (mapping, map')) : Carries base map' := by
  unfold anchor at hanchor
  obtain ⟨origin, -, hanchor⟩ := Except.bind_eq_ok.mp hanchor
  cases hindex : origin.sourceIndex with
  | some index =>
      rw [hindex] at hanchor
      obtain ⟨-, rfl⟩ := Prod.mk.inj (Except.ok.inj hanchor)
      exact h
  | none =>
      rw [hindex] at hanchor
      obtain ⟨-, rfl⟩ := Prod.mk.inj (Except.ok.inj hanchor)
      exact h.internSource origin.source

theorem anchors_carries
    {base map map' : SourceMap} {places : List (Nat × Nat)} {added : List Mapping}
    (h : Carries base map) (hanchors : anchors edits lineage map places = .ok (added, map')) :
    Carries base map' := by
  induction places generalizing map added with
  | nil =>
      obtain ⟨-, rfl⟩ := Prod.mk.inj (Except.ok.inj hanchors)
      exact h
  | cons place rest ih =>
      obtain ⟨⟨first, between⟩, hfirst, hrest⟩ := Except.bind_eq_ok.mp hanchors
      obtain ⟨⟨others, after⟩, hothers, hadded⟩ := Except.bind_eq_ok.mp hrest
      obtain ⟨-, rfl⟩ := Prod.mk.inj (Except.ok.inj hadded)
      exact ih (anchor_carries h hfirst) hothers

theorem editedMap_carries
    {granularity : Granularity} {edited : SourceMap}
    (h : editedMap text edits lineage granularity = .ok edited) :
    Carries (baseMap text lineage) edited := by
  obtain ⟨⟨added, map⟩, hanchors, hedited⟩ := Except.bind_eq_ok.mp h
  obtain rfl := Except.ok.inj hedited
  have hmap := anchors_carries (.refl (baseMap text lineage)) hanchors
  exact ⟨hmap.names, hmap.file, hmap.root, hmap.contents⟩

/-! ## Mappings of the edited map -/

theorem exists_inOrder_of_subperm (h : (edits.map token).Subperm (Token.scan text)) :
    ∃ ordered : List Edit, InOrder ordered ∧ edits.Perm ordered := by
  obtain ⟨tokens, htokens, hsublist⟩ := h
  have hof : List.Forall₂ (fun token edit => edit.token = token) (edits.map token) edits := by
    simp [List.forall₂_map_left_iff, List.forall₂_same]
  obtain ⟨ordered, hordered, hperm⟩ := List.perm_comp_forall₂ htokens hof
  obtain rfl : ordered.map token = tokens := by
    rw [← List.forall₂_eq_eq_eq, List.forall₂_map_left_iff]
    exact List.Forall₂.flip hordered
  refine ⟨ordered, ⟨?_, ?_⟩, hperm.symm⟩
  · have hpairwise := (Token.pairwise_scan text).sublist hsublist
    rwa [List.pairwise_map] at hpairwise
  · intro edit hedit
    exact (Token.wellFormed_of_mem_scan
      (hsublist.subset (List.mem_map_of_mem hedit))).nonempty

theorem InOrder.shift_nonneg
    (h : InOrder edits) (line : Int) {column : Int} (hcolumn : 0 ≤ column) :
    0 ≤ shift edits line column := by
  have hzero : shift edits line 0 = 0 :=
    shiftAlong_of_le (fun edit hedit => h.nonempty edit (mem_alongLine.mp hedit).1)
      fun _ _ => Int.natCast_nonneg _
  rw [← hzero]
  exact shift_le_shift h line hcolumn

theorem shift_nonneg
    (h : (edits.map token).Subperm (Token.scan text)) (line : Int) {column : Int}
    (hcolumn : 0 ≤ column) : 0 ≤ shift edits line column := by
  obtain ⟨ordered, hordered, hperm⟩ := exists_inOrder_of_subperm h
  rw [shift_eq_of_perm hordered hperm]
  exact hordered.shift_nonneg line hcolumn

theorem wellFormed_baseMappings
    (hedits : (edits.map token).Subperm (Token.scan text)) (hlineage : lineage.Sound) :
    ∀ mapping ∈ baseMappings text edits lineage,
      mapping.WellFormed ⟨(baseMap text lineage).sources.length,
        (baseMap text lineage).names.length⟩ := by
  intro mapping hmapping
  unfold baseMappings at hmapping
  cases hmap : lineage.map with
  | none =>
      rw [hmap, SourceMap.ofLines, SourceMap.ofParts, Mapping.sort, List.mem_mergeSort] at hmapping
      obtain ⟨line, -, rfl⟩ := List.mem_map.mp hmapping
      simp only [baseMap, hmap]
      exact .mapped (Int.natCast_nonneg line) (le_refl 0) (by simp [ofLines, ofParts])
        ⟨Int.natCast_nonneg line, le_refl 0⟩ (by simp)
  | some map =>
      rw [hmap] at hmapping
      obtain ⟨incoming, hincoming, rfl⟩ := List.mem_map.mp hmapping
      have hwf := (hlineage map hmap).wellFormed incoming hincoming
      simp only [baseMap, hmap]
      exact hwf.move (shift_nonneg hedits _ hwf.column_nonneg)

theorem lt_of_entry
    {sources : List Text} {index : Int} {source : Text} (hnonneg : 0 ≤ index)
    (h : entry? sources index = some source) : index < sources.length := by
  unfold entry? at h
  rw [if_pos hnonneg] at h
  obtain ⟨hlt, -⟩ := List.getElem?_eq_some_iff.mp h
  omega

theorem isAnchor_unique
    {sources : List Text} {place : Nat × Nat} {mapping mapping' : Mapping}
    (h : IsAnchor text edits lineage sources place mapping)
    (h' : IsAnchor text edits lineage sources place mapping') : mapping = mapping' := by
  obtain ⟨origin, horigin, rfl, -⟩ := h
  obtain ⟨origin', horigin', rfl, -⟩ := h'
  obtain rfl := Except.ok.inj (horigin.symm.trans horigin')
  rfl

theorem mem_sort_eraseDups_iff
    {sources : List Text} {places : List (Nat × Nat)} {base added : List Mapping}
    (hadded : List.Forall₂ (IsAnchor text edits lineage sources) places added)
    {mapping : Mapping} :
    mapping ∈ Mapping.sort (base ++ added).eraseDups ↔
      mapping ∈ base ∨ ∃ place ∈ places, IsAnchor text edits lineage sources place mapping := by
  rw [Mapping.sort, List.mem_mergeSort, List.mem_eraseDups, List.mem_append]
  apply or_congr_right
  constructor
  · exact fun hmapping => Forall₂.exists_of_mem_right hadded hmapping
  · rintro ⟨place, hplace, hanchor⟩
    obtain ⟨mapping', hmapping', hanchor'⟩ := Forall₂.exists_of_mem_left hadded hplace
    rwa [isAnchor_unique hanchor hanchor']

theorem wellFormed_anchor
    (hedits : (edits.map token).Subperm (Token.scan text)) (hlineage : lineage.Sound)
    {sources : List Text}
    {place : Nat × Nat} {mapping : Mapping}
    (h : IsAnchor text edits lineage sources place mapping) :
    mapping.WellFormed ⟨sources.length, (baseMap text lineage).names.length⟩ := by
  obtain ⟨origin, horigin, rfl, index, hindex, hentry⟩ := h
  obtain rfl := Option.some.inj hindex
  have hcolumn : 0 ≤ shift edits place.1 place.2 :=
    shift_nonneg hedits place.1 (Int.natCast_nonneg place.2)
  rcases hlineage.origin_cases ⟨place.1, place.2⟩ with
    hhere | ⟨map, mapping, index, source, hmap, hnearest, hsource, hnonneg, -, hfound⟩
  · obtain rfl := Except.ok.inj (horigin.symm.trans hhere)
    exact .mapped (Int.natCast_nonneg _) hcolumn
      ⟨Int.natCast_nonneg _, lt_of_entry (Int.natCast_nonneg _) hentry⟩
      ⟨Int.natCast_nonneg _, Int.natCast_nonneg _⟩ (by simp [Lineage.here])
  · obtain rfl := Except.ok.inj (horigin.symm.trans hfound)
    have hmem := List.takeWhile_subset _ (List.mem_of_getLast? hnearest)
    have hwf := (hlineage map hmap).wellFormed mapping hmem
    have hnames : (baseMap text lineage).names = map.names := by
      simp only [baseMap, hmap, ofParts]
    rw [hnames]
    cases hwf with
    | unmapped _ _ => simp at hsource
    | mapped _ _ _ hplace hname =>
        exact .mapped (Int.natCast_nonneg _) hcolumn ⟨hnonneg, lt_of_entry hnonneg hentry⟩
          hplace hname

theorem fits_baseMap_iff (text : Text) (lineage : Lineage) :
    (baseMap text lineage).Fits ↔ ∀ map, lineage.map = some map → map.Fits := by
  unfold baseMap
  cases lineage.map with
  | none =>
      have hfits : (ofLines lineage.source text .null).Fits :=
        ⟨.null, .null, by simp [ofLines, ofParts]⟩
      simp [hfits]
  | some map =>
      simp only [Option.some.injEq, forall_eq']
      constructor
      · rintro ⟨hfile, hroot, hcontents⟩
        refine ⟨hfile, hroot, fun items hitems => ?_⟩
        by_cases hempty : items = []
        · exact hempty ▸ .array (by simp)
        · exact hcontents items (Option.filter_eq_some_iff.mpr ⟨hitems, by simpa using hempty⟩)
      · rintro ⟨hfile, hroot, hcontents⟩
        exact ⟨hfile, hroot, fun items hitems =>
          hcontents items (Option.filter_eq_some_iff.mp hitems).1⟩

theorem exists_names_baseMap
    (hnames : ∀ map, lineage.map = some map → ∀ name ∈ map.names, ∃ written, name = .string written)
    (text : Text) :
    ∃ names : List Text, (baseMap text lineage).names = names.map .string := by
  unfold baseMap
  cases hmap : lineage.map with
  | none => exact ⟨[], rfl⟩
  | some map =>
      obtain ⟨names, hnames⟩ := Forall₂.exists_of_forall (hnames map hmap)
      refine ⟨names, ?_⟩
      rw [← List.forall₂_eq_eq_eq, List.forall₂_map_right_iff]
      exact hnames

/-- The map of an edited text is sorted and has every carried mapping and every anchor once;
all of them are well-formed.  It is restored from what is printed of it exactly if what the
text's own map carries along is within the limits of JSON texts, as it is if the map was read
from a text.  It is then the same map, but for halves next to each other in the sources and
names, which are paired. -/
theorem editedMap_reusable
    {text : Text} {edits : List Edit} {lineage : Lineage}
    (hedits : (edits.map token).Subperm (Token.scan text)) (hlineage : lineage.Sound)
    (hnames : ∀ map, lineage.map = some map → ∀ name ∈ map.names, ∃ written, name = .string written)
    (granularity : Granularity) :
    ∃ edited, editedMap text edits lineage granularity = .ok edited ∧
      Mapping.Sorted edited.mappings ∧ edited.mappings.Nodup ∧
      (∀ mapping, mapping ∈ edited.mappings ↔
        mapping ∈ baseMappings text edits lineage ∨
          ∃ place ∈ anchorPlaces granularity edits,
            IsAnchor text edits lineage edited.sources place mapping) ∧
      (∀ mapping ∈ edited.mappings,
        mapping.WellFormed ⟨edited.sources.length, edited.names.length⟩) ∧
      ∃ names : List Text, edited.names = names.map .string ∧
        ((∃ back, edited.RestoredAs back) ↔ ∀ map, lineage.map = some map → map.Fits) ∧
        (∀ given map, given.Fits → load given = .ok map → map.Fits) ∧
        ∀ back, edited.RestoredAs back →
          back.sources = edited.sources.map Text.paired ∧
          back.names = names.map (fun name => .string (Text.paired name)) ∧
          back.mappings = edited.mappings := by
  obtain ⟨added, edited, hedited, hmappings, hlisted, hadded⟩ :=
    editedMap_spec hlineage text edits granularity
  have hcarries := editedMap_carries hedited
  obtain ⟨names, hbase⟩ := exists_names_baseMap hnames text
  have hsorted : Mapping.Sorted edited.mappings := hmappings ▸ Mapping.sorted_sort _
  have hmem (mapping : Mapping) : mapping ∈ edited.mappings ↔
      mapping ∈ baseMappings text edits lineage ∨
        ∃ place ∈ anchorPlaces granularity edits,
          IsAnchor text edits lineage edited.sources place mapping :=
    hmappings ▸ mem_sort_eraseDups_iff hadded
  have hwf : ∀ mapping ∈ edited.mappings,
      mapping.WellFormed ⟨edited.sources.length, edited.names.length⟩ := by
    intro mapping hmapping
    rw [hcarries.names]
    rcases (hmem mapping).mp hmapping with hmapping | ⟨place, -, hanchor⟩
    · exact (wellFormed_baseMappings hedits hlineage mapping hmapping).mono
        hlisted.length_le le_rfl
    · exact wellFormed_anchor hedits hlineage hanchor
  obtain ⟨hfits, hrestored⟩ := exists_restoredAs_iff (hcarries.names.trans hbase) hwf
  rw [hcarries.fits_iff, fits_baseMap_iff] at hfits
  rw [Mapping.sort_of_sorted hsorted] at hrestored
  refine ⟨edited, hedited, hsorted, ?_, hmem, hwf, names, hcarries.names.trans hbase, hfits,
    fun _ _ => fits_of_load, hrestored⟩
  rw [hmappings, Mapping.sort, (List.mergeSort_perm _ _).nodup_iff]
  exact List.nodup_eraseDups _

theorem editedMap_reusable_of_named :
    ∃ edited, editedMap "url(a.png)".text (uniform "url(a.png)".text "bb.png".text)
        ⟨some (.ofParts ["a.scss".text] [.ofRunning ⟨0, 0⟩ {} (some 0)] [.string "n".text] .null
          .null none), "a.css".text⟩ .startAndEnd = .ok edited ∧
      Mapping.Sorted edited.mappings ∧ edited.mappings.Nodup ∧
      ∃ (names : List Text) (back : SourceMap), edited.names = names.map .string ∧
        edited.RestoredAs back ∧ back.sources = edited.sources.map Text.paired ∧
        back.names = names.map (fun name => .string (Text.paired name)) ∧
        back.mappings = edited.mappings := by
  have hread : Mapping.decode ⟨[Json.string "a.scss".text].length, [Json.string "n".text].length⟩
      "AAAAA".text = .ok [.ofRunning ⟨0, 0⟩ {} (some 0)] := by cbv
  have hscan : ((uniform "url(a.png)".text "bb.png".text).map token).Subperm
      (Token.scan "url(a.png)".text) := by
    rw [map_token_uniform]
  have hsound : Lineage.Sound ⟨some (.ofParts ["a.scss".text] [.ofRunning ⟨0, 0⟩ {} (some 0)]
      [.string "n".text] .null .null none), "a.css".text⟩ := by
    rintro map ⟨rfl⟩
    exact accepted_fields hread none none none
  obtain ⟨edited, hedited, hsorted, hnodup, -, -, names, hnames, hfits, -, hrestored⟩ :=
    editedMap_reusable hscan hsound (by rintro map ⟨rfl⟩; simp [ofParts]) .startAndEnd
  obtain ⟨back, hback⟩ := hfits.mpr (by rintro map ⟨rfl⟩; exact ⟨.null, .null, by simp [ofParts]⟩)
  exact ⟨edited, hedited, hsorted, hnodup, names, back, hnames, hback, hrestored back hback⟩

/-- A source of two halves comes back as one character, and with a file name that is an integer
with too many digits or too many nested arrays a map is not restored at all. -/
theorem exists_not_restored :
    (∃ edited back : SourceMap,
      (ofParts [[.half 0, .half 0x400]] [] [] .null .null none).Accepted ∧
      editedMap [] [] ⟨some (.ofParts [[.half 0, .half 0x400]] [] [] .null .null none),
        "a.css".text⟩ .start = .ok edited ∧
      edited.RestoredAs back ∧ back.sources ≠ edited.sources) ∧
    ∀ file, file = .int (10 ^ Text.maxDigits) ∨ file = Json.nested (Json.maxDepth - 1) →
      ∃ edited : SourceMap, (ofParts [] [] [] file .null none).Accepted ∧
        editedMap [] [] ⟨some (.ofParts [] [] [] file .null none), "a.css".text⟩ .start =
          .ok edited ∧
        ∀ back, ¬edited.RestoredAs back := by
  have hedited (sources : List Text) (file : Json) :
      editedMap [] [] ⟨some (.ofParts sources [] [] file .null none), "a.css".text⟩ .start =
        .ok (.ofParts sources [] [] file .null none) := by
    simp [editedMap, anchors, anchorPlaces, baseMap, baseMappings, ofParts, Mapping.sort, bind,
      Except.bind, pure, Except.pure]
  have hrestored (sources : List Text) (file : Json) :=
    @exists_restoredAs_iff (.ofParts sources [] [] file .null none) [] rfl
      (by simp [ofParts, Mapping.sort])
  constructor
  · obtain ⟨hfits, hback⟩ := hrestored [[.half 0, .half 0x400]] .null
    obtain ⟨back, hrestoredAs⟩ := hfits.mpr ⟨.null, .null, by simp [ofParts]⟩
    have hdecode : Mapping.decode ⟨1, 0⟩ [] = .ok [] := rfl
    refine ⟨_, back, accepted_of_decode hdecode, hedited _ _, hrestoredAs, ?_⟩
    rw [(hback back hrestoredAs).1]
    decide
  · intro file hfile
    have hbeyond : ¬file.Fits (Json.maxDepth - 1) := by
      rcases hfile with rfl | rfl
      · have hpow (k : Nat) : 10 ^ k ≤ ((10 : Int) ^ k).natAbs := (Int.natAbs_pow 10 k).ge
        have hlong := Text.isTooLong_iff.mpr (hpow Text.maxDigits)
        intro h
        cases h with
        | int hshort => simp [hlong] at hshort
      · exact Json.not_fits_nested _
    have hdecode : Mapping.decode ⟨([] : List Json).length, ([] : List Json).length⟩ [] = .ok [] :=
      rfl
    exact ⟨_, accepted_fields hdecode (some file) none none, hedited _ _,
      fun back hback => hbeyond ((hrestored [] file).1.mp ⟨back, hback⟩).file⟩

end Edit

end UrlRebase
