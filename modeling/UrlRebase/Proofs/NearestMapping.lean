import Mathlib
import UrlRebase.SourceMap.Lineage

/-!
# The mapping that counts for a position

Mappings are sorted in a stable way, so the mapping that counts for a position is, of all
at or before the position, the one with the last generated position, and of several there
the one that came last before sorting.  `later?` picks one of two mappings by this rule,
and what counts among two lists together is the later one of what counts in each.
-/

namespace UrlRebase

namespace Position

theorem le_iff {left right : Position} :
    left.le right = true ↔
      left.line < right.line ∨ (left.line = right.line ∧ left.column ≤ right.column) := by
  simp [le]

theorem le_refl (position : Position) : position.le position = true :=
  le_iff.mpr (.inr ⟨rfl, Int.le_refl _⟩)

theorem le_trans
    {first second third : Position} (h : first.le second = true) (h' : second.le third = true) :
    first.le third = true := by
  rw [le_iff] at *
  omega

theorem le_antisymm
    {left right : Position} (h : left.le right = true) (h' : right.le left = true) :
    left = right := by
  rw [le_iff] at *
  cases left
  cases right
  simp only [Position.mk.injEq] at *
  omega

theorem le_of_not_le {left right : Position} (h : ¬left.le right = true) :
    right.le left = true := by
  rw [le_iff] at *
  omega

end Position

namespace Mapping

theorem le_trans (first second third : Mapping)
    (h : first.generated.le second.generated = true)
    (h' : second.generated.le third.generated = true) :
    first.generated.le third.generated = true :=
  Position.le_trans h h'

theorem le_total (left right : Mapping) :
    (left.generated.le right.generated || right.generated.le left.generated) = true := by
  rw [Bool.or_eq_true]
  by_cases h : left.generated.le right.generated = true
  · exact .inl h
  · exact .inr (Position.le_of_not_le h)

/-- Mappings in order of generated position. -/
def Sorted (mappings : List Mapping) : Prop :=
  mappings.Pairwise fun left right => left.generated.le right.generated = true

theorem sorted_sort (mappings : List Mapping) : Sorted (sort mappings) :=
  List.pairwise_mergeSort le_trans le_total mappings

theorem sort_of_sorted {mappings : List Mapping} (h : Sorted mappings) : sort mappings = mappings :=
  List.mergeSort_of_pairwise h

end Mapping

namespace Lineage

open Mapping

/-- The one of two mappings that counts, where the second came behind the first. -/
def later? : Option Mapping → Option Mapping → Option Mapping
  | none, second => second
  | first, none => first
  | some first, some second =>
      if first.generated.le second.generated then some second else some first

theorem later?_none (first : Option Mapping) : later? first none = first := by
  cases first <;> rfl

theorem later?_assoc (first second third : Option Mapping) :
    later? (later? first second) third = later? first (later? second third) := by
  cases first with
  | none => rfl
  | some a =>
      cases second with
      | none => rw [later?_none]; rfl
      | some b =>
          cases third with
          | none => rw [later?_none, later?_none]
          | some c =>
              simp only [later?]
              by_cases hab : a.generated.le b.generated = true
              · by_cases hbc : b.generated.le c.generated = true
                · simp [hab, hbc, Position.le_trans hab hbc]
                · simp [hab, hbc]
              · by_cases hbc : b.generated.le c.generated = true
                · simp [hab, hbc]
                · have hac : ¬a.generated.le c.generated = true := by
                    intro hac
                    exact hab (Position.le_trans hac (Position.le_of_not_le hbc))
                  simp [hab, hbc, hac]

theorem nearest?_append_of_le
    {left right : List Mapping} {position : Position}
    (hleft : ∀ mapping ∈ left, mapping.generated.le position = true) :
    nearest? (left ++ right) position =
      (nearest? right position).or left.getLast? := by
  unfold nearest?
  rw [List.takeWhile_append_of_pos hleft, List.getLast?_append]

theorem nearest?_append_of_not_le
    {left right : List Mapping} {position : Position}
    (hright : ∀ mapping ∈ right, ¬mapping.generated.le position = true) :
    nearest? (left ++ right) position = nearest? left position := by
  have hnil : right.takeWhile (·.generated.le position) = [] := by
    cases right with
    | nil => rfl
    | cons mapping right => exact List.takeWhile_cons_of_neg (hright mapping List.mem_cons_self)
  unfold nearest?
  rw [List.takeWhile_append, hnil, List.append_nil]
  split
  · rename_i hlength
    rw [(List.takeWhile_prefix _).eq_of_length hlength]
  · rfl

/-- A mapping put before others counts only if nothing at or behind it does. -/
theorem nearest?_sort_cons (mapping : Mapping) (rest : List Mapping) (position : Position) :
    nearest? (sort (mapping :: rest)) position =
      later? (if mapping.generated.le position then some mapping else none)
        (nearest? (sort rest) position) := by
  obtain ⟨before, behind, hcons, hrest, hbefore⟩ :=
    List.mergeSort_cons Mapping.le_trans Mapping.le_total mapping rest
  have hsorted := sorted_sort (mapping :: rest)
  rw [sort, hcons] at hsorted
  have hbehind : ∀ other ∈ behind, mapping.generated.le other.generated = true :=
    (List.pairwise_cons.mp (List.pairwise_append.mp hsorted).2.1).1
  rw [sort, sort, hcons, hrest]
  by_cases hmapping : mapping.generated.le position = true
  · have hall : ∀ other ∈ before, other.generated.le position = true := by
      intro other hother
      have hnot : ¬mapping.generated.le other.generated = true := by
        simpa using hbefore other hother
      exact Position.le_trans (Position.le_of_not_le hnot) hmapping
    rw [if_pos hmapping, nearest?_append_of_le hall, nearest?_append_of_le hall]
    unfold nearest?
    rw [List.takeWhile_cons_of_pos (by simpa using hmapping), List.getLast?_cons]
    cases hlast : (behind.takeWhile (·.generated.le position)).getLast? with
    | none =>
        cases hfirst : before.getLast? with
        | none => rfl
        | some other =>
            have hnot := hbefore other (List.mem_of_getLast? hfirst)
            simp_all [later?]
    | some other =>
        have hmem := List.mem_of_getLast? hlast
        have hle := hbehind other (List.takeWhile_subset _ hmem)
        simp [later?, hle]
  · have hnone (tail : List Mapping)
        (htail : ∀ other ∈ tail, mapping.generated.le other.generated = true) :
        nearest? (before ++ tail) position = nearest? before position := by
      apply nearest?_append_of_not_le
      intro other hother hle
      exact hmapping (Position.le_trans (htail other hother) hle)
    rw [if_neg hmapping, hnone behind hbehind, hnone (mapping :: behind)]
    · rfl
    · intro other hother
      rcases List.mem_cons.mp hother with rfl | hother
      · exact Position.le_refl _
      · exact hbehind other hother

theorem nearest?_sort_append (left right : List Mapping) (position : Position) :
    nearest? (sort (left ++ right)) position =
      later? (nearest? (sort left) position) (nearest? (sort right) position) := by
  induction left with
  | nil =>
      have hnil : sort [] = [] := List.mergeSort_nil
      rw [hnil]
      rfl
  | cons mapping left ih =>
      rw [List.cons_append, nearest?_sort_cons, nearest?_sort_cons, ih, later?_assoc]

theorem nearest?_eq_some
    {mappings : List Mapping} {position : Position} {mapping : Mapping}
    (h : nearest? mappings position = some mapping) :
    mapping ∈ mappings ∧ mapping.generated.le position = true := by
  have hmem := List.mem_of_getLast? h
  have hall : ∀ other ∈ mappings.takeWhile (·.generated.le position),
      other.generated.le position = true := List.all_eq_true.mp List.all_takeWhile
  exact ⟨List.takeWhile_subset _ hmem, hall mapping hmem⟩

theorem nearest?_sort_cons_of_exact
    {mapping : Mapping} {rest : List Mapping} {position : Position}
    (hexact : mapping.generated = position)
    (hrest : ∀ other ∈ rest, other.generated ≠ position) :
    nearest? (sort (mapping :: rest)) position = some mapping := by
  have hle : mapping.generated.le position = true := by
    rw [hexact]
    exact Position.le_refl position
  rw [nearest?_sort_cons, if_pos hle]
  cases hnearest : nearest? (sort rest) position with
  | none => rfl
  | some other =>
      obtain ⟨hmem, hle⟩ := nearest?_eq_some hnearest
      rw [sort, List.mem_mergeSort] at hmem
      have hnot : ¬mapping.generated.le other.generated = true := by
        rw [hexact]
        intro hge
        exact hrest other hmem (Position.le_antisymm hle hge)
      simp only [later?, if_neg hnot]

/-- Of mappings exactly at a position the last one counts for it. -/
theorem nearest?_sort_of_exact
    {mappings : List Mapping} {position : Position}
    (h : ∃ mapping ∈ mappings, mapping.generated = position) :
    nearest? (sort mappings) position =
      (mappings.filter (·.generated = position)).getLast? := by
  induction mappings with
  | nil => simp at h
  | cons mapping rest ih =>
      by_cases hrest : ∃ other ∈ rest, other.generated = position
      · obtain ⟨other, hmem, hother⟩ := hrest
        have hkept : other ∈ rest.filter (·.generated = position) :=
          List.mem_filter.mpr ⟨hmem, decide_eq_true hother⟩
        obtain ⟨last, hlast⟩ : ∃ last,
            (rest.filter (·.generated = position)).getLast? = some last :=
          ⟨_, List.getLast?_eq_some_getLast (List.ne_nil_of_mem hkept)⟩
        have hexact : last.generated = position := by
          simpa using (List.mem_filter.mp (List.mem_of_getLast? hlast)).2
        have hcons : ((mapping :: rest).filter (·.generated = position)).getLast? =
            some last := by
          rw [List.filter_cons]
          split
          · rw [List.getLast?_cons, hlast]
            rfl
          · exact hlast
        rw [nearest?_sort_cons, ih ⟨other, hmem, hother⟩, hlast, hcons]
        split
        · rename_i hmapping
          simp only [later?, hexact, hmapping, if_true]
        · rfl
      · have hnone : ∀ other ∈ rest, other.generated ≠ position := by
          intro other hmem hother
          exact hrest ⟨other, hmem, hother⟩
        have hexact : mapping.generated = position := by
          obtain ⟨other, hmem, hother⟩ := h
          rcases List.mem_cons.mp hmem with rfl | hmem
          · exact hother
          · exact absurd hother (hnone other hmem)
        have hnil : rest.filter (·.generated = position) = [] := by
          rw [List.filter_eq_nil_iff]
          intro other hmem hother
          exact hnone other hmem (by simpa using hother)
        rw [nearest?_sort_cons_of_exact hexact hnone,
          List.filter_cons_of_pos (by simpa using hexact), hnil, List.getLast?_singleton]

end Lineage

end UrlRebase
