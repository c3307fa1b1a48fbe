import UrlRebase.Proofs.AnchoredMap
import UrlRebase.Proofs.NearestMapping

/-!
# Positions and mappings after edits

Edits keep the order of positions, and they keep apart any two positions of which one is
not inside a payload from what is behind it.  Hence of the mappings that are carried over
the same one counts for a position before and after the edits.  Anchors stand at the ends
of references, which are not inside payloads.
-/

namespace UrlRebase

namespace Edit

/-- Where a position stands after the edits. -/
def moved (edits : List Edit) (position : Position) : Position :=
  ⟨position.line, shift edits position.line position.column⟩

/-- A mapping of a text as it is carried over. -/
def carried (edits : List Edit) (mapping : Mapping) : Mapping :=
  { mapping with generated := moved edits mapping.generated }

section Moved

variable {edits : List Edit} {position position' : Position}

theorem moved_le_moved (h : InOrder edits) (hle : position.le position' = true) :
    (moved edits position).le (moved edits position') = true := by
  rw [Position.le_iff] at *
  rcases hle with hlt | ⟨hline, hcolumn⟩
  · exact .inl hlt
  · refine .inr ⟨hline, ?_⟩
    simp only [moved, hline]
    exact shift_le_shift h position'.line hcolumn

theorem le_of_moved_le_moved
    (h : InOrder edits) (htext : ∀ edit ∈ edits, edit.text ≠ [])
    (houtside : ¬Inside edits position'.line position'.column)
    (hle : (moved edits position).le (moved edits position') = true) :
    position.le position' = true := by
  rw [Position.le_iff] at *
  rcases hle with hlt | ⟨hline, hcolumn⟩
  · exact .inl hlt
  · have hsame : position.line = position'.line := hline
    refine .inr ⟨hsame, ?_⟩
    by_contra hbehind
    have hshift := shift_lt_shift h htext houtside (Int.not_le.mp hbehind)
    simp only [moved, hsame] at hcolumn
    omega

theorem moved_le_moved_eq
    (h : InOrder edits) (htext : ∀ edit ∈ edits, edit.text ≠ [])
    (houtside : ¬Inside edits position'.line position'.column) :
    (moved edits position).le (moved edits position') = position.le position' :=
  Bool.eq_iff_iff.mpr ⟨le_of_moved_le_moved h htext houtside, moved_le_moved h⟩

/-- The same carried mapping counts for a position that is not inside a payload. -/
theorem nearest?_carried
    (h : InOrder edits) (htext : ∀ edit ∈ edits, edit.text ≠ [])
    (houtside : ¬Inside edits position.line position.column) (mappings : List Mapping) :
    Lineage.nearest? (mappings.map (carried edits)) (moved edits position) =
      (Lineage.nearest? mappings position).map (carried edits) := by
  have hle : (fun mapping : Mapping => mapping.generated.le (moved edits position)) ∘
      carried edits = fun mapping => mapping.generated.le position := by
    funext mapping
    exact moved_le_moved_eq h htext houtside
  unfold Lineage.nearest?
  rw [List.takeWhile_map, hle, List.getLast?_map]

theorem sorted_carried
    {mappings : List Mapping} (h : InOrder edits) (hsorted : Mapping.Sorted mappings) :
    Mapping.Sorted (mappings.map (carried edits)) := by
  rw [Mapping.Sorted, List.pairwise_map]
  exact hsorted.imp fun hle => moved_le_moved h hle

end Moved

/-! ## The ends of references -/

section Ends

variable {edits : List Edit} {edit : Edit}

/-- From the column before its start to its end only the payload of a reference is inside
a payload. -/
theorem InOrder.not_inside
    (h : InOrder edits) (hedit : edit ∈ edits) {column : Int}
    (hstart : (edit.token.place.column : Int) - 1 ≤ column)
    (hfinish : column ≤ edit.token.finishColumn)
    (hpayload : column ≤ edit.token.payloadColumn ∨
      (edit.token.payloadFinishColumn : Int) ≤ column) :
    ¬Inside edits edit.token.place.line column := by
  rintro ⟨other, hother, hline, hinside⟩
  have hcolumn := other.token.column_lt_payloadColumn
  have hclosing := other.token.payloadFinishColumn_lt_finishColumn
  rcases h.before_or hother hedit with rfl | hbefore | hbehind
  · omega
  · simp only [Token.Before, Place.Reaches, Token.finishPlace] at hbefore
    omega
  · simp only [Token.Before, Place.Reaches, Token.finishPlace] at hbehind
    omega

theorem InOrder.not_inside_start (h : InOrder edits) (hedit : edit ∈ edits) :
    ¬Inside edits edit.token.place.line edit.token.place.column := by
  have hcolumn := edit.token.column_lt_payloadColumn
  apply h.not_inside hedit
  · omega
  · simp only [Token.finishColumn]
    omega
  · omega

theorem InOrder.not_inside_finish (h : InOrder edits) (hedit : edit ∈ edits) :
    ¬Inside edits edit.token.place.line edit.token.finishColumn := by
  have hclosing := edit.token.payloadFinishColumn_lt_finishColumn
  apply h.not_inside hedit
  · simp only [Token.finishColumn]
    omega
  · exact le_rfl
  · omega

theorem InOrder.not_inside_of_mem_anchorPlaces
    (h : InOrder edits) {granularity : Granularity} {place : Nat × Nat}
    (hplace : place ∈ anchorPlaces granularity edits) :
    ¬Inside edits place.1 place.2 := by
  simp only [anchorPlaces, List.mem_flatMap, List.mem_map] at hplace
  obtain ⟨edit, hedit, column, hcolumn, rfl⟩ := hplace
  cases granularity with
  | start =>
      obtain rfl := List.mem_singleton.mp hcolumn
      exact h.not_inside_start hedit
  | startAndEnd =>
      rcases List.mem_cons.mp hcolumn with rfl | hcolumn
      · exact h.not_inside_start hedit
      · obtain rfl := List.mem_singleton.mp hcolumn
        exact h.not_inside_finish hedit

/-- No other position comes to stand where the start of a reference does. -/
theorem InOrder.eq_start_of_moved_eq
    (h : InOrder edits) (htext : ∀ edit ∈ edits, edit.text ≠ []) (hedit : edit ∈ edits)
    {position : Position}
    (heq : moved edits position =
      moved edits ⟨edit.token.place.line, edit.token.place.column⟩) :
    position = ⟨edit.token.place.line, edit.token.place.column⟩ := by
  obtain ⟨line, column⟩ := position
  obtain ⟨rfl, hcolumn⟩ := Position.mk.inj heq
  simp only at hcolumn
  have hpayload := edit.token.column_lt_payloadColumn
  have hbefore : ¬Inside edits edit.token.place.line (edit.token.place.column - 1) := by
    apply h.not_inside hedit
    · omega
    · simp only [Token.finishColumn]
      omega
    · omega
  -- The column before the reference is outside too, so all before it stays before.
  rcases lt_trichotomy column edit.token.place.column with hlt | rfl | hgt
  · have hle := shift_le_shift h edit.token.place.line (Int.le_sub_one_of_lt hlt)
    have hlast := shift_lt_shift h htext hbefore
      (Int.sub_lt_self (edit.token.place.column : Int) one_pos)
    omega
  · rfl
  · have hshift := shift_lt_shift h htext (h.not_inside_start hedit) hgt
    omega

end Ends

end Edit

end UrlRebase
