import UrlRebase.Proofs.MergedIndices
import UrlRebase.Proofs.TracedEdits

/-!
# The latest of the nearest mappings

`Counts` says without sorting or searching which mapping of a list, in whatever order it is,
counts for a position: it is the last one in the list with the greatest generated position of
all at or before the position.  The mapping that a lineage finds in the sorted list is exactly
this one, so the origin of a position is what the list says of it.
-/

namespace UrlRebase

namespace Lineage

open Mapping

/-- Whether a mapping of a list is the one that the list has for a position. -/
structure Counts (given : List Mapping) (position : Position) (mapping : Mapping) : Prop where
  reaches : mapping.generated.le position = true
  greatest : ∀ other ∈ given, other.generated.le position = true →
    other.generated.le mapping.generated = true
  last : ∃ before behind, given = before ++ mapping :: behind ∧
    ∀ other ∈ behind, other.generated ≠ mapping.generated

theorem later?_eq_none_iff {first second : Option Mapping} :
    later? first second = none ↔ first = none ∧ second = none := by
  cases first with
  | none => cases second <;> simp [later?]
  | some a =>
      cases second with
      | none => simp [later?]
      | some b =>
          simp only [later?]
          split <;> simp

theorem nearest?_sort_eq_none_iff {given : List Mapping} {position : Position} :
    nearest? (sort given) position = none ↔
      ∀ mapping ∈ given, ¬mapping.generated.le position = true := by
  induction given with
  | nil => simp [sort, nearest?]
  | cons mapping rest ih => rw [nearest?_sort_cons, later?_eq_none_iff, ih]; simp

namespace Counts

variable {given : List Mapping} {position : Position} {mapping : Mapping}

theorem mem (h : Counts given position mapping) : mapping ∈ given := by
  obtain ⟨before, behind, rfl, -⟩ := h.last
  simp

/-- A mapping counts among a list with others before it if none of these is nearer. -/
theorem cons
    (h : Counts given position mapping) {first : Mapping}
    (hfirst : first.generated.le position = true →
      first.generated.le mapping.generated = true) :
    Counts (first :: given) position mapping where
  reaches := h.reaches
  greatest := by
    intro other hother hle
    rcases List.mem_cons.mp hother with rfl | hother
    · exact hfirst hle
    · exact h.greatest other hother hle
  last := by
    obtain ⟨before, behind, rfl, hbehind⟩ := h.last
    exact ⟨first :: before, behind, rfl, hbehind⟩

/-- A mapping counts among a list behind it if it is nearer than all there. -/
theorem head
    (hreaches : mapping.generated.le position = true)
    (hbehind : ∀ other ∈ given, other.generated.le position = true →
      ¬mapping.generated.le other.generated = true) :
    Counts (mapping :: given) position mapping where
  reaches := hreaches
  greatest := by
    intro other hother hle
    rcases List.mem_cons.mp hother with rfl | hother
    · exact Position.le_refl _
    · exact Position.le_of_not_le (hbehind other hother hle)
  last := by
    refine ⟨[], given, rfl, fun other hother hsame => ?_⟩
    have hle : mapping.generated.le other.generated = true := by
      rw [hsame]
      exact Position.le_refl _
    exact hbehind other hother (hsame ▸ hreaches) hle

/-- What is found in a part of the list starts no later than the mapping that counts. -/
theorem le_of_nearest?_sort
    {part : List Mapping} {other : Mapping} (h : Counts given position mapping)
    (hpart : part ⊆ given) (hfound : nearest? (sort part) position = some other) :
    other ∈ part ∧ other.generated.le mapping.generated = true := by
  obtain ⟨hmem, hle⟩ := nearest?_eq_some hfound
  rw [sort, List.mem_mergeSort] at hmem
  exact ⟨hmem, h.greatest other (hpart hmem) hle⟩

/-- The mapping that counts is found in the sorted list. -/
theorem nearest?_eq (h : Counts given position mapping) :
    nearest? (sort given) position = some mapping := by
  obtain ⟨before, behind, rfl, hbehind⟩ := h.last
  -- Nothing behind it reaches as far, and what is before it gives way to it.
  have hself : nearest? (sort (mapping :: behind)) position = some mapping := by
    rw [nearest?_sort_cons, if_pos h.reaches]
    cases hfound : nearest? (sort behind) position with
    | none => rfl
    | some other =>
        obtain ⟨hmem, hother⟩ := h.le_of_nearest?_sort (by simp) hfound
        have hnot : ¬mapping.generated.le other.generated = true := fun hge =>
          hbehind other hmem (Position.le_antisymm hother hge)
        simp only [later?, if_neg hnot]
  rw [nearest?_sort_append, hself]
  cases hfound : nearest? (sort before) position with
  | none => rfl
  | some other =>
      obtain ⟨-, hother⟩ := h.le_of_nearest?_sort (by simp) hfound
      simp only [later?, if_pos hother]

end Counts

theorem counts_of_nearest?
    {given : List Mapping} {position : Position} {mapping : Mapping}
    (h : nearest? (sort given) position = some mapping) :
    Counts given position mapping := by
  induction given generalizing mapping with
  | nil => simp [sort, nearest?] at h
  | cons first rest ih =>
      rw [nearest?_sort_cons] at h
      cases hrest : nearest? (sort rest) position with
      | none =>
          rw [hrest, later?_none] at h
          split at h
          · rename_i hle
            obtain rfl := Option.some.inj h
            exact .head hle fun other hother hreaches =>
              absurd hreaches (nearest?_sort_eq_none_iff.mp hrest other hother)
          · simp at h
      | some other =>
          have hother := ih hrest
          rw [hrest] at h
          split at h
          · rename_i hle
            simp only [later?] at h
            split at h
            · rename_i hbefore
              obtain rfl := Option.some.inj h
              exact hother.cons fun _ => hbefore
            · rename_i hbefore
              obtain rfl := Option.some.inj h
              refine .head hle fun third hthird hreaches hge => hbefore ?_
              exact Position.le_trans hge (hother.greatest third hthird hreaches)
          · rename_i hle
            obtain rfl := Option.some.inj h
            exact hother.cons fun hreaches => absurd hreaches hle

/-- Sorting in a stable way and searching finds the mapping that counts. -/
theorem nearest?_sort_iff
    {given : List Mapping} {position : Position} {mapping : Mapping} :
    nearest? (sort given) position = some mapping ↔ Counts given position mapping :=
  ⟨counts_of_nearest?, Counts.nearest?_eq⟩

section Given

variable {sources : List Text} {given : List Mapping} {names : List Json} {file root : Json}
  {contents : Option (List Json)} {own : Text} {position : Position}

theorem mappingAt?_ofParts :
    mappingAt? ⟨some (.ofParts sources given names file root contents), own⟩ position =
      nearest? (sort given) position := rfl

theorem origin_of_none
    {lineage : Lineage} {map : SourceMap} (hmap : lineage.map = some map)
    (h : ∀ mapping, lineage.mappingAt? position = some mapping → mapping.source = none) :
    lineage.origin position = .ok (lineage.here position false) := by
  rw [mappingAt?, hmap, Option.bind_some] at h
  unfold origin
  simp only [hmap]
  cases hfound : nearest? map.mappings position with
  | none => rfl
  | some mapping => simp only [h mapping hfound]

/-- Tracing follows the list of mappings as it was given: the mapping at a position is the one
that counts there, and a position comes from the source place of this mapping, with its name,
or from itself if no mapping counts or the one that does has no source. -/
theorem origin_of_given (hrange : ∀ mapping ∈ given, mapping.InRange sources.length) :
    let lineage : Lineage := ⟨some (.ofParts sources given names file root contents), own⟩
    (∀ mapping, lineage.mappingAt? position = some mapping ↔ Counts given position mapping) ∧
      (lineage.mappingAt? position = none ↔
        ∀ mapping ∈ given, ¬mapping.generated.le position = true) ∧
      (∀ mapping index, Counts given position mapping → mapping.source = some index →
        ∃ source, sources[index.toNat]? = some source ∧
          lineage.origin position = .ok
            { source
              line := mapping.line
              column := mapping.column
              sourceIndex := some index
              name := mapping.name
              mapped := true }) ∧
      ((∀ mapping, Counts given position mapping → mapping.source = none) →
        lineage.origin position = .ok
          { source := own
            line := some position.line
            column := some position.column
            sourceIndex := none
            name := none
            mapped := false }) := by
  have hfound (mapping : Mapping) :
      mappingAt? ⟨some (.ofParts sources given names file root contents), own⟩ position =
        some mapping ↔ Counts given position mapping := by
    rw [mappingAt?_ofParts, nearest?_sort_iff]
  refine ⟨hfound, ?_, ?_, ?_⟩
  · rw [mappingAt?_ofParts]
    exact nearest?_sort_eq_none_iff
  · intro mapping index hcounts hindex
    obtain ⟨hnonneg, hlt⟩ := hrange mapping hcounts.mem index hindex
    obtain ⟨source, hsource⟩ := SourceMap.exists_entry hnonneg hlt
    refine ⟨source, (SourceMap.entry?_of_nonneg hnonneg).symm.trans hsource, ?_⟩
    exact origin_of_nearest ((hfound mapping).mpr hcounts) hindex hsource own
  · intro hnone
    exact origin_of_none rfl fun mapping hmapping => hnone mapping ((hfound mapping).mp hmapping)

end Given

/-- Mappings in no order, of which two are at one position and one has no source. -/
def unordered : List Mapping :=
  [{ generated := ⟨1, 0⟩, source := some 0, line := some 7, column := some 0 },
    { generated := ⟨0, 4⟩, source := some 0, line := some 1, column := some 1 },
    { generated := ⟨0, 0⟩ },
    { generated := ⟨0, 4⟩, source := some 1, line := some 2, column := some 3, name := some 0 }]

theorem origin_of_given_of_unordered :
    (∀ mapping ∈ unordered, mapping.InRange 2) ∧
      origin ⟨some (.ofParts ["a".text, "b".text] unordered [] .null .null none), "c".text⟩
          ⟨0, 9⟩ =
        .ok
          { source := "b".text
            line := some 2
            column := some 3
            sourceIndex := some 1
            name := some 0
            mapped := true } ∧
      origin ⟨some (.ofParts ["a".text, "b".text] unordered [] .null .null none), "c".text⟩
          ⟨0, 3⟩ =
        .ok
          { source := "c".text
            line := some 0
            column := some 3
            sourceIndex := none
            name := none
            mapped := false } := by
  have hrange : ∀ mapping ∈ unordered, mapping.InRange 2 := by
    simp [unordered, Mapping.InRange]
  have hlast : Counts unordered ⟨0, 9⟩
      { generated := ⟨0, 4⟩, source := some 1, line := some 2, column := some 3,
        name := some 0 } :=
    ⟨by decide, by decide, unordered.take 3, [], rfl, by simp⟩
  have hnone : Counts unordered ⟨0, 3⟩ { generated := ⟨0, 0⟩ } :=
    ⟨by decide, by decide, unordered.take 2, unordered.drop 3, rfl, by decide⟩
  obtain ⟨-, -, htraced, -⟩ :=
    @origin_of_given ["a".text, "b".text] unordered [] .null .null none "c".text ⟨0, 9⟩ hrange
  obtain ⟨hfound, -, -, hown⟩ :=
    @origin_of_given ["a".text, "b".text] unordered [] .null .null none "c".text ⟨0, 3⟩ hrange
  obtain ⟨source, hsource, horigin⟩ := htraced _ 1 hlast rfl
  obtain rfl : "b".text = source := Option.some.inj hsource
  refine ⟨hrange, horigin, hown fun mapping hmapping => ?_⟩
  obtain rfl := Option.some.inj (((hfound _).mpr hnone).symm.trans ((hfound mapping).mpr hmapping))
  rfl

end Lineage

end UrlRebase
