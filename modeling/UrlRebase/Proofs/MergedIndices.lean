import UrlRebase.Proofs.AnchoredMap
import UrlRebase.Proofs.NearestMapping
import UrlRebase.SourceMap.Concat

/-!
# Merged sources and names

A map that joins others lists every source and every name once.  Its lists only grow, so an
index that stands for an entry keeps standing for it, and a mapping that was carried into
the map stays carried whatever is added behind it.
-/

namespace UrlRebase

/-- Whether two JSON values are one, or are the same as values. -/
def Json.Alike (left right : Json) : Prop :=
  left = right ∨ left.same right = true

theorem Json.Alike.eq_of_string {left right : Text} (h : Alike (.string left) (.string right)) :
    left = right := by
  rcases h with h | h
  · exact Json.string.inj h
  · simpa [Json.same] using h

/-- What is needed of a mapping of a map with so many sources and names: its indices are in
range, and it has a name only with a source. -/
structure Mapping.Indexed (limits : Limits) (mapping : Mapping) : Prop where
  source : mapping.InRange limits.sources
  name : ∀ index, mapping.name = some index → 0 ≤ index ∧ index < limits.names
  named : mapping.source = none → mapping.name = none

theorem Except.exists_mapM
    {ε α β : Type} {f : α → Except ε β} {r : α → β → Prop} {list : List α}
    (h : ∀ a ∈ list, ∃ b, f a = .ok b ∧ r a b) :
    ∃ others, list.mapM f = .ok others ∧ List.Forall₂ r list others := by
  induction list with
  | nil => exact ⟨[], rfl, .nil⟩
  | cons a rest ih =>
      obtain ⟨b, hb, hr⟩ := h a List.mem_cons_self
      obtain ⟨others, hothers, hrest⟩ := ih fun other hother => h other (List.mem_cons_of_mem a hother)
      refine ⟨b :: others, ?_, .cons hr hrest⟩
      simp only [List.mapM_cons, hb, hothers, bind, Except.bind, pure, Except.pure]

section Rel

variable {α β : Type} {r s : α → β → Prop} {left : Option α} {right : Option β}

theorem Option.Rel.imp (h : Option.Rel r left right) (himp : ∀ a b, r a b → s a b) :
    Option.Rel s left right := by
  cases h with
  | some hab => exact .some (himp _ _ hab)
  | none => exact .none

theorem Option.Rel.exists_left {b : β} (h : Option.Rel r left right) (hright : right = some b) :
    ∃ a, left = some a ∧ r a b := by
  cases h with
  | some hab =>
      obtain rfl := Option.some.inj hright
      exact ⟨_, rfl, hab⟩
  | none => cases hright

theorem Option.Rel.exists_right {a : α} (h : Option.Rel r left right) (hleft : left = some a) :
    ∃ b, right = some b ∧ r a b := by
  cases h with
  | some hab =>
      obtain rfl := Option.some.inj hleft
      exact ⟨_, rfl, hab⟩
  | none => cases hleft

theorem Option.Rel.getD {a : α} {b : β} (h : Option.Rel r left right) (hab : r a b) :
    r (left.getD a) (right.getD b) := by
  cases h with
  | some h => exact h
  | none => exact hab

theorem Option.Rel.eq_none_iff (h : Option.Rel r left right) : left = none ↔ right = none := by
  cases h <;> simp

end Rel

namespace SourceMap

def limits (map : SourceMap) : Mapping.Limits :=
  ⟨map.sources.length, map.names.length⟩

/-- What is needed of a map to join it with others: its mappings are sorted, as those of
every map that was built, in range and on no negative line, and a root is a text. -/
structure Joinable (map : SourceMap) : Prop where
  sorted : Mapping.Sorted map.mappings
  indexed : ∀ mapping ∈ map.mappings, mapping.Indexed map.limits
  nonneg : ∀ mapping ∈ map.mappings, 0 ≤ mapping.generated.line
  root : map.root.truthy = true → ∃ text, map.root = .string text

/-- Whether a map lists no source and no name twice. -/
structure Distinct (map : SourceMap) : Prop where
  sources : map.sources.Nodup
  names : map.names.Pairwise fun left right => left.same right = false

/-- Whether one map lists what another lists, perhaps more behind it. -/
structure Extends (map map' : SourceMap) : Prop where
  sources : map.sources <+: map'.sources
  names : map.names <+: map'.names
  root : map'.root = map.root
  distinct : map.Distinct → map'.Distinct

theorem Extends.refl (map : SourceMap) : Extends map map :=
  ⟨List.prefix_rfl, List.prefix_rfl, rfl, id⟩

theorem Extends.of_mappings (map : SourceMap) (mappings : List Mapping) :
    Extends map { map with mappings } :=
  ⟨List.prefix_rfl, List.prefix_rfl, rfl, fun h => ⟨h.sources, h.names⟩⟩

theorem Extends.trans {map map' map'' : SourceMap}
    (h : Extends map map') (h' : Extends map' map'') : Extends map map'' :=
  ⟨h.sources.trans h'.sources, h.names.trans h'.names, h'.root.trans h.root,
    h'.distinct ∘ h.distinct⟩

/-! ## Indices that stand for each other -/

section Stands

variable {α β : Type} {r : α → β → Prop}

theorem entry?_of_nonneg {entries : List α} {index : Int} (h : 0 ≤ index) :
    entry? entries index = entries[index.toNat]? := by
  unfold entry?
  rw [if_pos h]

theorem entry?_natCast (entries : List α) (index : Nat) :
    entry? entries index = entries[index]? := by
  rw [entry?_of_nonneg (Int.natCast_nonneg index), Int.toNat_natCast]

theorem mem_of_listed {entries : List α} {index : Int} {entry : α}
    (h : entry? entries index = some entry) : entry ∈ entries := by
  unfold entry? at h
  split at h
  · exact List.mem_of_getElem? h
  · split at h
    · exact List.mem_of_getElem? h
    · cases h

/-- Whether the entry of a list with an index is related to that of another list with
another index, which does not count from the end. -/
def Stands (r : α → β → Prop) (entries : List α) (others : List β) (index place : Int) : Prop :=
  0 ≤ place ∧ ∃ entry other,
    entry? entries index = some entry ∧ entry? others place = some other ∧ r entry other

theorem Stands.mono {entries : List α} {others others' : List β} {index place : Int}
    (h : Stands r entries others index place) (hgrows : others <+: others') :
    Stands r entries others' index place := by
  obtain ⟨hplace, entry, other, hentry, hother, hr⟩ := h
  refine ⟨hplace, entry, other, hentry, ?_, hr⟩
  rw [entry?_of_nonneg hplace] at hother ⊢
  obtain ⟨more, rfl⟩ := hgrows
  obtain ⟨hlength, -⟩ := List.getElem?_eq_some_iff.mp hother
  rwa [List.getElem?_append_left hlength]

theorem Stands.lt {entries : List α} {others : List β} {index place : Int}
    (h : Stands r entries others index place) : place < others.length := by
  obtain ⟨hplace, -, other, -, hother, -⟩ := h
  rw [entry?_of_nonneg hplace] at hother
  obtain ⟨hlength, -⟩ := List.getElem?_eq_some_iff.mp hother
  omega

/-- Places that were found for the entries of a list give every index one it stands for. -/
theorem exists_movedIndex
    {entries : List α} {others : List β} {places : List Nat} {index : Int}
    (hplaces : List.Forall₂ (fun entry place => ∃ other, others[place]? = some other ∧
      r entry other) entries places)
    (hnonneg : 0 ≤ index) (hlt : index < entries.length) :
    ∃ place, movedIndex places index = .ok place ∧ Stands r entries others index place := by
  have hlength : index.toNat < entries.length := by omega
  have hlength' : index.toNat < places.length := by
    rwa [← hplaces.length_eq]
  obtain ⟨other, hother, hr⟩ := hplaces.get hlength hlength'
  refine ⟨places[index.toNat], ?_, Int.natCast_nonneg _, entries[index.toNat], other, ?_, ?_, hr⟩
  · unfold movedIndex
    rw [entry?_of_nonneg hnonneg, List.getElem?_eq_getElem hlength']
  · rw [entry?_of_nonneg hnonneg, List.getElem?_eq_getElem hlength]
  · rwa [entry?_natCast]

end Stands

/-! ## Sources -/

/-- A source that is asked for is listed at the place that is given, and nothing else is
added to a map. -/
theorem internSource_extends (map : SourceMap) (source : Text) (content : Json) :
    ∃ place map', map.internSource source content = (place, map') ∧ Extends map map' ∧
      map'.mappings = map.mappings ∧ map'.sources[place]? = some source ∧
      (∀ listed, listed ∈ map'.sources ↔ listed ∈ map.sources ∨ listed = source) ∧
      map'.names = map.names := by
  unfold internSource
  cases hfound : map.sources.idxOf? source with
  | some index =>
      obtain ⟨hlength, hindex, -⟩ := List.findIdx?_eq_some_iff_getElem.mp hfound
      have hsource : map.sources[index]? = some source := by
        rw [List.getElem?_eq_getElem hlength, LawfulBEq.eq_of_beq hindex]
      refine ⟨index, map, rfl, .refl map, rfl, hsource, fun listed => ⟨.inl, ?_⟩, rfl⟩
      rintro (hlisted | rfl)
      · exact hlisted
      · exact List.mem_of_getElem? hsource
  | none =>
      have hnot : source ∉ map.sources := List.idxOf?_eq_none_iff.mp hfound
      refine ⟨_, _, rfl, ⟨List.prefix_append _ _, List.prefix_rfl, rfl, ?_⟩, rfl, by simp,
        ?_, rfl⟩
      · intro hdistinct
        have hnodup := hdistinct.sources.concat hnot
        rw [List.concat_eq_append] at hnodup
        exact ⟨hnodup, hdistinct.names⟩
      · intro listed
        rw [List.mem_append, List.mem_singleton]

theorem exists_rootedSource {root : Json}
    (h : root.truthy = true → ∃ text, root = .string text) (source : Text) :
    ∃ rooted, rootedSource root source = .ok rooted := by
  unfold rootedSource
  split
  · split
    · exact ⟨_, rfl⟩
    · exact ⟨_, rfl⟩
  · rename_i hnot
    split
    · rename_i htruthy
      obtain ⟨text, rfl⟩ := h htruthy
      exact absurd rfl (hnot text)
    · exact ⟨_, rfl⟩

/-- Merging puts the sources of a map, behind its root, at the places that are given. -/
theorem mergeSources_extends
    {root : Json} (hroot : root.truthy = true → ∃ text, root = .string text)
    (contents : List Json) (index : Nat) (whole : SourceMap) (sources : List Text) :
    ∃ whole' places, mergeSources root contents index whole sources = .ok (whole', places) ∧
      Extends whole whole' ∧ whole'.mappings = whole.mappings ∧
      List.Forall₂ (fun source place => ∃ rooted, whole'.sources[place]? = some rooted ∧
        rootedSource root source = .ok rooted) sources places ∧
      (∀ listed, listed ∈ whole'.sources ↔ listed ∈ whole.sources ∨
        ∃ source ∈ sources, rootedSource root source = .ok listed) ∧
      whole'.names = whole.names := by
  induction sources generalizing index whole with
  | nil => exact ⟨whole, [], rfl, .refl whole, rfl, .nil, by simp, rfl⟩
  | cons source sources ih =>
      obtain ⟨rooted, hrooted⟩ := exists_rootedSource hroot source
      obtain ⟨place, added, hintern, hadded, hmappings, hplace, hlisted, hnames⟩ :=
        whole.internSource_extends rooted (contents[index]?.getD .null)
      obtain ⟨whole', places, hmerge, hwhole, hmappings', hplaces, hlisted', hnames'⟩ :=
        ih (index + 1) added
      refine ⟨whole', place :: places, ?_, hadded.trans hwhole, hmappings'.trans hmappings,
        .cons ⟨rooted, ?_, hrooted⟩ hplaces, ?_, hnames'.trans hnames⟩
      · unfold mergeSources
        simp only [hrooted, hintern, hmerge, bind, Except.bind, pure, Except.pure]
      · obtain ⟨more, hmore⟩ := hwhole.sources
        obtain ⟨hlength, -⟩ := List.getElem?_eq_some_iff.mp hplace
        rw [← hmore, List.getElem?_append_left hlength, hplace]
      · intro listed
        have hsource : listed = rooted ↔ rootedSource root source = .ok listed := by
          rw [hrooted, Except.ok.injEq, eq_comm]
        rw [hlisted', hlisted, hsource, or_assoc, List.exists_mem_cons_iff]

/-! ## Names -/

/-- A name that is asked for, or the same one, is listed at the place that is given, and
nothing else is added to a map. -/
theorem internName_extends (map : SourceMap) (name : Json) :
    ∃ place map', map.internName name = (place, map') ∧ Extends map map' ∧
      map'.mappings = map.mappings ∧
      (∃ held, map'.names[place]? = some held ∧ Json.Alike held name) ∧
      (∀ old ∈ map'.names, old ∈ map.names ∨ old = name) ∧ map'.sources = map.sources := by
  unfold internName
  cases hfound : map.names.findIdx? (·.same name) with
  | some index =>
      obtain ⟨hlength, hsame, -⟩ := List.findIdx?_eq_some_iff_getElem.mp hfound
      exact ⟨index, map, rfl, .refl map, rfl,
        ⟨_, List.getElem?_eq_getElem hlength, .inr hsame⟩, fun _ h => .inl h, rfl⟩
  | none =>
      have hnot := List.findIdx?_eq_none_iff.mp hfound
      refine ⟨_, _, rfl, ⟨List.prefix_rfl, List.prefix_append _ _, rfl, ?_⟩, rfl,
        ⟨name, by simp, .inl rfl⟩, ?_, rfl⟩
      · intro hdistinct
        refine ⟨hdistinct.sources, List.pairwise_append.mpr
          ⟨hdistinct.names, List.pairwise_singleton _ _, ?_⟩⟩
        intro old hold new hnew
        rw [List.mem_singleton.mp hnew]
        exact hnot old hold
      · intro old hold
        rcases List.mem_append.mp hold with hold | hold
        · exact .inl hold
        · exact .inr (List.mem_singleton.mp hold)

theorem mergeNames_extends (whole : SourceMap) (names : List Json) :
    ∃ whole' places, mergeNames whole names = (whole', places) ∧
      Extends whole whole' ∧ whole'.mappings = whole.mappings ∧
      List.Forall₂ (fun name place => ∃ held, whole'.names[place]? = some held ∧
        Json.Alike held name) names places ∧
      (∀ listed ∈ whole'.names, listed ∈ whole.names ∨ listed ∈ names) ∧
      whole'.sources = whole.sources := by
  induction names generalizing whole with
  | nil => exact ⟨whole, [], rfl, .refl whole, rfl, .nil, fun _ h => .inl h, rfl⟩
  | cons name names ih =>
      obtain ⟨place, added, hintern, hadded, hmappings, ⟨held, hheld, halike⟩, hlisted, hsources⟩ :=
        whole.internName_extends name
      obtain ⟨whole', places, hmerge, hwhole, hmappings', hplaces, hlisted', hsources'⟩ := ih added
      refine ⟨whole', place :: places, ?_, hadded.trans hwhole, hmappings'.trans hmappings,
        .cons ⟨held, ?_, halike⟩ hplaces, ?_, hsources'.trans hsources⟩
      · unfold mergeNames
        simp only [hintern, hmerge]
      · obtain ⟨more, hmore⟩ := hwhole.names
        obtain ⟨hlength, -⟩ := List.getElem?_eq_some_iff.mp hheld
        rw [← hmore, List.getElem?_append_left hlength, hheld]
      · intro listed hmem
        rcases hlisted' listed hmem with hmem | hmem
        · rcases hlisted listed hmem with hmem | rfl
          · exact .inl hmem
          · exact .inr List.mem_cons_self
        · exact .inr (List.mem_cons_of_mem name hmem)

/-! ## Mappings -/

/-- Whether a mapping of a map that joins others is one of a part, moved down by some lines:
it has the same origin, the source behind the root of the part, and the same name. -/
structure Carried (lines : Int) (part whole : SourceMap) (mapping moved : Mapping) : Prop where
  generated : moved.generated = ⟨mapping.generated.line + lines, mapping.generated.column⟩
  line : moved.line = mapping.line
  column : moved.column = mapping.column
  source : Option.Rel
    (Stands (fun source rooted => rootedSource part.root source = .ok rooted)
      part.sources whole.sources) mapping.source moved.source
  name : Option.Rel
    (Stands (fun name held => Json.Alike held name) part.names whole.names)
    mapping.name moved.name
  named : mapping.source = none → mapping.name = none

section Carried

variable {lines : Int} {part whole whole' : SourceMap} {mapping moved : Mapping}

theorem Carried.mono (h : Carried lines part whole mapping moved) (hwhole : Extends whole whole') :
    Carried lines part whole' mapping moved where
  generated := h.generated
  line := h.line
  column := h.column
  source := Option.Rel.imp h.source fun _ _ hstands => hstands.mono hwhole.sources
  name := Option.Rel.imp h.name fun _ _ hstands => hstands.mono hwhole.names
  named := h.named

theorem Carried.indexed (h : Carried lines part whole mapping moved) :
    moved.Indexed whole.limits where
  source := by
    intro place hplace
    obtain ⟨index, -, hstands⟩ := Option.Rel.exists_left h.source hplace
    exact ⟨hstands.1, hstands.lt⟩
  name := by
    intro place hplace
    obtain ⟨index, -, hstands⟩ := Option.Rel.exists_left h.name hplace
    exact ⟨hstands.1, hstands.lt⟩
  named := by
    intro hnone
    have hsource := (Option.Rel.eq_none_iff h.source).mpr hnone
    exact (Option.Rel.eq_none_iff h.name).mp (h.named hsource)

/-- A mapping in range is carried to where its sources and names were put. -/
theorem exists_moveMapping
    (lines : Int) {sources names : List Nat} (hmapping : mapping.Indexed part.limits)
    (hsources : List.Forall₂ (fun source place => ∃ rooted, whole.sources[place]? = some rooted ∧
      rootedSource part.root source = .ok rooted) part.sources sources)
    (hnames : List.Forall₂ (fun name place => ∃ held, whole.names[place]? = some held ∧
      Json.Alike held name) part.names names) :
    ∃ moved, moveMapping lines sources names mapping = .ok moved ∧
      Carried lines part whole mapping moved := by
  unfold moveMapping
  cases hsource : mapping.source with
  | none =>
      refine ⟨_, rfl, rfl, rfl, rfl, ?_, ?_, hmapping.named⟩
      · rw [hsource]
        exact .none
      · rw [hmapping.named hsource]
        exact .none
  | some source =>
      obtain ⟨hnonneg, hlt⟩ := hmapping.source source hsource
      obtain ⟨place, hplace, hstands⟩ := exists_movedIndex hsources hnonneg hlt
      cases hname : mapping.name with
      | none =>
          refine ⟨{ mapping with generated := _, source := some place, name := none },
            ?_, rfl, rfl, rfl, ?_, ?_, hmapping.named⟩
          · simp only [hplace, bind, Except.bind, pure, Except.pure]
          · rw [hsource]
            exact .some hstands
          · rw [hname]
            exact .none
      | some name =>
          obtain ⟨hnonneg, hlt⟩ := hmapping.name name hname
          obtain ⟨place', hplace', hstands'⟩ := exists_movedIndex hnames hnonneg hlt
          refine ⟨{ mapping with generated := _, source := some place, name := some place' },
            ?_, rfl, rfl, rfl, ?_, ?_, hmapping.named⟩
          · simp only [hplace, hplace', Except.map, bind, Except.bind, pure, Except.pure]
          · rw [hsource]
            exact .some hstands
          · rw [hname]
            exact .some hstands'

end Carried

end SourceMap

end UrlRebase
