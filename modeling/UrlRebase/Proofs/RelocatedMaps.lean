import UrlRebase.Pack.Build
import UrlRebase.Proofs.JoinedMaps

/-!
# Relocated maps

The map of an input is put beside the asset: its sources become the ways from there, and all
else of it that matters for joining stays.  So a map that can be joined with others still
can be, and whatever it maps it maps to the same place of the source with the same index.
-/

namespace UrlRebase

theorem Mapping.WellFormed.indexed
    {limits : Limits} {mapping : Mapping} (h : mapping.WellFormed limits) :
    mapping.Indexed limits where
  source := h.inRange
  name := by
    cases h with
    | unmapped => simp
    | mapped _ _ _ _ hname => exact hname
  named := by
    cases h <;> simp

namespace SourceMap

theorem exists_sourceBeside
    {root : Json} (hroot : root.truthy = true → ∃ text, root = .string text)
    (current input output source : Text) :
    ∃ beside, sourceBeside current input output root source = .ok beside := by
  unfold sourceBeside
  by_cases htruthy : root.truthy = true
  · obtain ⟨text, rfl⟩ := hroot htruthy
    rw [if_pos htruthy]
    exact ⟨_, rfl⟩
  · rw [if_neg htruthy]
    exact ⟨_, rfl⟩

/-- A map that can be joined with others can be put beside an output, and joined there. -/
theorem exists_beside (current input output : Text) {map : SourceMap} (hmap : map.Joinable) :
    ∃ relocated, map.beside current input output = .ok relocated ∧ relocated.Joinable ∧
      relocated.mappings = map.mappings ∧
      List.Forall₂ (fun source beside =>
        sourceBeside current (Path.dirname (Path.absolute current input))
          (Path.dirname (Path.absolute current output)) map.root source = .ok beside)
        map.sources relocated.sources := by
  let besideOutput := sourceBeside current (Path.dirname (Path.absolute current input))
    (Path.dirname (Path.absolute current output)) map.root
  have hexists : ∀ source ∈ map.sources, ∃ beside, besideOutput source = .ok beside ∧
      besideOutput source = .ok beside :=
    fun source _ => (exists_sourceBeside hmap.root _ _ _ source).imp fun _ h => ⟨h, h⟩
  obtain ⟨sources, hsources, hbeside⟩ := Except.exists_mapM hexists
  have hsort : Mapping.sort map.mappings = map.mappings := Mapping.sort_of_sorted hmap.sorted
  have hlength : sources.length = map.sources.length := hbeside.length_eq.symm
  refine ⟨ofParts sources map.mappings map.names .null .null map.contents, ?_, ?_, hsort,
    hbeside⟩
  · unfold beside
    simp only [besideOutput] at hsources
    simp only [hsources, bind, Except.bind, pure, Except.pure]
  · refine ⟨Mapping.sorted_sort map.mappings, ?_, ?_, by simp [ofParts, Json.truthy]⟩
    · intro mapping hmapping
      simp only [ofParts, hsort] at hmapping
      have hindexed := hmap.indexed mapping hmapping
      simpa only [limits, ofParts, hlength] using hindexed
    · intro mapping hmapping
      simp only [ofParts, hsort] at hmapping
      exact hmap.nonneg mapping hmapping

/-- A map that stands beside an output has no root, so its sources stay as they are when it is
joined with others. -/
theorem root_of_mapBeside
    {current input output : Text} {given : Option Given} {relocated : SourceMap}
    (h : Packer.mapBeside current input output given = .ok (some relocated)) :
    relocated.root = .null := by
  cases given with
  | none => cases h
  | some given =>
      obtain ⟨map, -, h⟩ := Except.bind_eq_ok.mp h
      obtain ⟨beside, hbeside, h⟩ := Except.bind_eq_ok.mp h
      obtain ⟨sources, -, hsources⟩ := Except.bind_eq_ok.mp hbeside
      obtain rfl := Option.some.inj (Except.ok.inj h)
      obtain rfl := Except.ok.inj hsources
      rfl

end SourceMap

/-- What is needed of a draft to join its map with others: the map can be read and joined, and
has no mapping behind the last line of the text. -/
def Draft.IsTraceable (draft : Draft) : Prop :=
  ∀ given, draft.map = some given → ∃ map, SourceMap.load given = .ok map ∧ map.Joinable ∧
    ∀ mapping ∈ map.mappings, mapping.generated.line ≤ draft.text.count (.char '\n')

theorem Draft.IsTraceable.exists_mapBeside
    {draft : Draft} (h : draft.IsTraceable) (current input output : Text) :
    ∃ map, Packer.mapBeside current input output draft.map = .ok map ∧
      (map = none ↔ draft.map = none) ∧
      ∀ relocated, map = some relocated → relocated.Joinable ∧
        ∀ mapping ∈ relocated.mappings, mapping.generated.line ≤ draft.text.count (.char '\n') := by
  cases hmap : draft.map with
  | none => exact ⟨none, rfl, by simp, by simp⟩
  | some given =>
      obtain ⟨map, hload, hjoinable, hlines⟩ := h given hmap
      obtain ⟨relocated, hbeside, hjoinable', hmappings, -⟩ :=
        SourceMap.exists_beside current input output hjoinable
      refine ⟨some relocated, ?_, by simp, ?_⟩
      · unfold Packer.mapBeside
        simp only [hload, hbeside, Except.mapError, bind, Except.bind, pure, Except.pure]
      · intro other hother
        obtain rfl := Option.some.inj hother
        rw [hmappings]
        exact ⟨hjoinable', hlines⟩

end UrlRebase
