import UrlRebase.Proofs.MergedIndices
import UrlRebase.Proofs.TracedEdits

/-!
# Joined maps

The map of joined parts holds the mappings of each part as a block, moved down by the lines
of the parts before it.  If no part has mappings on lines that belong to later parts, the
blocks lie one below the other: what counts for a position of a part is looked up in the
block of that part alone, although the nearest mapping is looked for across all lines.
-/

namespace UrlRebase

def Origin.nameIn? (map : SourceMap) (origin : Origin) : Option Json :=
  origin.name.bind fun index => SourceMap.entry? map.names index

/-- Whether an origin that a joined map gives is that which the map of a part gives: the
source stands behind the root of that map, and the name is the same. -/
structure Origin.IsJoined (map whole : SourceMap) (origin origin' : Origin) : Prop where
  mapped : origin'.mapped = true
  line : origin'.line = origin.line
  column : origin'.column = origin.column
  source : SourceMap.rootedSource map.root origin.source = .ok origin'.source
  name : Option.Rel (SourceMap.Stands (fun name held => Json.Alike held name) map.names whole.names)
    origin.name origin'.name

theorem Origin.IsJoined.samePlace
    {map whole : SourceMap} {origin origin' : Origin} (h : origin.IsJoined map whole origin')
    (hroot : map.root = .null) : origin.SamePlace origin' := by
  have hsource := h.source
  rw [hroot] at hsource
  exact ⟨Except.ok.inj hsource, h.line.symm, h.column.symm⟩

theorem Origin.IsJoined.name_eq
    {map whole : SourceMap} {origin origin' : Origin} (h : origin.IsJoined map whole origin')
    (hnames : ∀ name ∈ map.names, ∃ text, name = .string text)
    (hwhole : ∀ name ∈ whole.names, ∃ text, name = .string text) :
    origin'.nameIn? whole = origin.nameIn? map := by
  unfold nameIn?
  cases hname : origin.name with
  | none => rw [(Option.Rel.eq_none_iff h.name).mp hname, Option.bind_none, Option.bind_none]
  | some index =>
      obtain ⟨place, hplace, -, name, held, hentry, hentry', halike⟩ :=
        Option.Rel.exists_right h.name hname
      obtain ⟨text, rfl⟩ := hnames name (SourceMap.mem_of_listed hentry)
      obtain ⟨text', rfl⟩ := hwhole held (SourceMap.mem_of_listed hentry')
      rw [hplace, Option.bind_some, Option.bind_some, hentry, hentry', halike.eq_of_string]

/-- A position that is traced to a mapped origin has it from the mapping that counts. -/
theorem Lineage.exists_nearest_of_mapped
    {map : SourceMap} {own : Text} {position : Position} {origin : Origin}
    (horigin : Lineage.origin ⟨some map, own⟩ position = .ok origin)
    (hmapped : origin.mapped = true) :
    ∃ mapping index, nearest? map.mappings position = some mapping ∧
      mapping.source = some index ∧ SourceMap.entry? map.sources index = some origin.source ∧
      origin.line = mapping.line ∧ origin.column = mapping.column ∧
      origin.name = mapping.name := by
  unfold Lineage.origin at horigin
  dsimp only at horigin
  split at horigin
  · obtain rfl := Except.ok.inj horigin
    simp [here] at hmapped
  · rename_i mapping hnearest
    split at horigin
    · obtain rfl := Except.ok.inj horigin
      simp [here] at hmapped
    · rename_i index hindex
      split at horigin
      · cases horigin
      · rename_i source hsource
        obtain rfl := Except.ok.inj horigin
        exact ⟨mapping, index, hnearest, hindex, hsource, rfl, rfl, rfl⟩

namespace SourceMap

/-! ## Blocks -/

/-- Whether mappings are those that a part, which starts on the given line, has in a map. -/
def Part.Carries (lines : Int) (whole : SourceMap) (part : Part) (block : List Mapping) : Prop :=
  match part.map with
  | none => block = []
  | some map => List.Forall₂ (Carried lines map whole) map.mappings block

/-- Whether mappings are those of parts in order, the first of which starts on the given
line. -/
inductive Laid (whole : SourceMap) : Int → List Part → List (List Mapping) → Prop
  | nil {lines : Int} : Laid whole lines [] []
  | cons {lines : Int} {part : Part} {parts : List Part} {block : List Mapping}
      {blocks : List (List Mapping)} (head : part.Carries lines whole block)
      (tail : Laid whole (lines + part.lines) parts blocks) :
      Laid whole lines (part :: parts) (block :: blocks)

/-- Whether no part that has a map behind it has mappings on lines that are not its own. -/
def Stacked (parts : List Part) : Prop :=
  parts.Pairwise fun part later => later.map.isSome = true →
    ∀ map, part.map = some map → ∀ mapping ∈ map.mappings, mapping.generated.line < part.lines

section Parts

variable {lines : Int} {whole whole' : SourceMap} {part : Part} {parts before behind : List Part}
  {block : List Mapping} {blocks : List (List Mapping)}

/-- Adding a map to a whole adds its mappings as a block, its sources and its names. -/
theorem addPart_carries
    (lines : Int) (whole : SourceMap) {map : SourceMap} (hmap : map.Joinable) :
    ∃ whole' block, addPart lines whole map = .ok whole' ∧ Extends whole whole' ∧
      whole'.mappings = whole.mappings ++ block ∧
      List.Forall₂ (Carried lines map whole') map.mappings block ∧
      (∀ listed, listed ∈ whole'.sources ↔ listed ∈ whole.sources ∨
        ∃ source ∈ map.sources, rootedSource map.root source = .ok listed) ∧
      (∀ listed ∈ whole'.names, listed ∈ whole.names ∨ listed ∈ map.names) := by
  obtain ⟨sourced, sources, hsources, hextends, hmappings, hplaces, hlisted, hnames⟩ :=
    mergeSources_extends hmap.root (map.contents.getD []) 0 whole map.sources
  obtain ⟨named, names, hmerge, hextends', hmappings', hplaces', hlisted', hsources'⟩ :=
    mergeNames_extends sourced map.names
  rw [← hsources'] at hplaces hlisted
  rw [hnames] at hlisted'
  obtain ⟨block, hblock, hcarried⟩ :=
    Except.exists_mapM fun mapping hmapping =>
      exists_moveMapping lines (hmap.indexed mapping hmapping) hplaces hplaces'
  have hwhole := Extends.of_mappings named (named.mappings ++ block)
  refine ⟨{ named with mappings := named.mappings ++ block }, block, ?_,
    (hextends.trans hextends').trans hwhole, ?_, ?_, hlisted, hlisted'⟩
  · unfold addPart
    simp only [hsources, hmerge, hblock, bind, Except.bind, pure, Except.pure]
  · rw [hmappings', hmappings]
  · exact hcarried.imp fun _ _ h => h.mono hwhole

theorem Part.Carries.mono
    (h : part.Carries lines whole block) (hwhole : Extends whole whole') :
    part.Carries lines whole' block := by
  unfold Part.Carries at *
  cases hmap : part.map with
  | none => simpa [hmap] using h
  | some map =>
      rw [hmap] at h
      exact h.imp fun _ _ hcarried => hcarried.mono hwhole

theorem Laid.mono (h : Laid whole lines parts blocks) (hwhole : Extends whole whole') :
    Laid whole' lines parts blocks := by
  induction h with
  | nil => exact .nil
  | cons head _ ih => exact .cons (head.mono hwhole) ih

/-- Parts are added as blocks one behind the other, with their sources and names. -/
theorem addParts_laid
    (lines : Int) (whole : SourceMap) {parts : List Part}
    (hparts : ∀ part ∈ parts, ∀ map, part.map = some map → map.Joinable) :
    ∃ whole' blocks, addParts lines whole parts = .ok whole' ∧ Extends whole whole' ∧
      whole'.mappings = whole.mappings ++ blocks.flatten ∧ Laid whole' lines parts blocks ∧
      (∀ listed, listed ∈ whole'.sources ↔ listed ∈ whole.sources ∨
        ∃ part ∈ parts, ∃ map, part.map = some map ∧
          ∃ source ∈ map.sources, rootedSource map.root source = .ok listed) ∧
      (∀ listed ∈ whole'.names, listed ∈ whole.names ∨
        ∃ part ∈ parts, ∃ map, part.map = some map ∧ listed ∈ map.names) := by
  induction parts generalizing lines whole with
  | nil => exact ⟨whole, [], rfl, .refl whole, by simp, .nil, by simp, fun _ => .inl⟩
  | cons part parts ih =>
      have hrest : ∀ other ∈ parts, ∀ map, other.map = some map → map.Joinable :=
        fun other hother => hparts other (List.mem_cons_of_mem part hother)
      cases hmap : part.map with
      | none =>
          obtain ⟨whole', blocks, hadd, hextends, hmappings, hlaid, hlisted, hnames⟩ :=
            ih (lines + part.lines) whole hrest
          refine ⟨whole', [] :: blocks, ?_, hextends, hmappings, .cons ?_ hlaid, ?_, ?_⟩
          · unfold addParts
            simp only [hmap, hadd, bind, Except.bind]
          · unfold Part.Carries
            rw [hmap]
          · intro listed
            simp [hlisted, hmap]
          · intro listed hmem
            simpa [hmap] using hnames listed hmem
      | some map =>
          obtain ⟨added, block, haddPart, hadded, hblock, hcarried, hsources, hnames⟩ :=
            addPart_carries lines whole (hparts part List.mem_cons_self map hmap)
          obtain ⟨whole', blocks, hadd, hextends, hmappings, hlaid, hsources', hnames'⟩ :=
            ih (lines + part.lines) added hrest
          refine ⟨whole', block :: blocks, ?_, hadded.trans hextends, ?_, .cons ?_ hlaid, ?_, ?_⟩
          · unfold addParts
            simp only [hmap, haddPart, hadd, bind, Except.bind]
          · rw [hmappings, hblock, List.flatten_cons, List.append_assoc]
          · unfold Part.Carries
            rw [hmap]
            exact hcarried.imp fun _ _ h => h.mono hextends
          · intro listed
            rw [hsources', hsources, or_assoc, List.exists_mem_cons_iff, hmap]
            simp
          · intro listed hmem
            rcases hnames' listed hmem with hmem | ⟨other, hother, hlisted⟩
            · rcases hnames listed hmem with hmem | hmem
              · exact .inl hmem
              · exact .inr ⟨part, List.mem_cons_self, map, hmap, hmem⟩
            · exact .inr ⟨other, List.mem_cons_of_mem part hother, hlisted⟩

/-! ## Lines of blocks -/

/-- The blocks of parts that are written one behind the other fall apart as the parts do. -/
theorem Laid.split
    (h : Laid whole lines (before ++ part :: behind) blocks) :
    ∃ left block right, blocks = left ++ block :: right ∧ Laid whole lines before left ∧
      part.Carries (lines + (before.map Part.lines).sum) whole block ∧
      Laid whole (lines + (before.map Part.lines).sum + part.lines) behind right := by
  induction before generalizing lines blocks with
  | nil =>
      cases h with
      | cons head tail =>
          rw [List.map_nil, List.sum_nil, Int.add_zero]
          exact ⟨[], _, _, rfl, .nil, head, tail⟩
  | cons first before ih =>
      cases h with
      | cons head tail =>
          obtain ⟨left, block, right, rfl, hleft, hblock, hright⟩ := ih tail
          refine ⟨_ :: left, block, right, rfl, .cons head hleft, ?_, ?_⟩
          · rwa [List.map_cons, List.sum_cons, ← Int.add_assoc]
          · rwa [List.map_cons, List.sum_cons, ← Int.add_assoc]

theorem Part.Carries.exists_mapping
    {moved : Mapping} (h : part.Carries lines whole block) (hmoved : moved ∈ block) :
    ∃ map, part.map = some map ∧
      ∃ mapping ∈ map.mappings, Carried lines map whole mapping moved := by
  unfold Part.Carries at h
  split at h
  · simp [h] at hmoved
  · rename_i map hmap
    exact ⟨map, hmap, Forall₂.exists_of_mem_right h hmoved⟩

/-- What lies in the blocks of parts is a mapping of one of them, moved down to where the
lines of that part are. -/
theorem Laid.exists_mapping
    {moved : Mapping} (h : Laid whole lines parts blocks) (hmoved : moved ∈ blocks.flatten)
    (hparts : ∀ part ∈ parts, 0 ≤ part.lines) :
    ∃ part ∈ parts, ∃ map, part.map = some map ∧ ∃ mapping ∈ map.mappings,
      ∃ start, lines ≤ start ∧ start + part.lines ≤ lines + (parts.map Part.lines).sum ∧
        Carried start map whole mapping moved := by
  induction h with
  | nil => simp at hmoved
  | @cons lines part parts block blocks head tail ih =>
      have hpart := hparts part List.mem_cons_self
      have hrest : ∀ other ∈ parts, 0 ≤ other.lines :=
        fun other hother => hparts other (List.mem_cons_of_mem part hother)
      rw [List.flatten_cons, List.mem_append] at hmoved
      rw [List.map_cons, List.sum_cons]
      rcases hmoved with hmoved | hmoved
      · obtain ⟨map, hmap, mapping, hmapping, hcarried⟩ := head.exists_mapping hmoved
        have hsum : 0 ≤ (parts.map Part.lines).sum := by
          apply List.sum_nonneg
          simpa using hrest
        exact ⟨part, List.mem_cons_self, map, hmap, mapping, hmapping, lines, Int.le_refl lines,
          by omega, hcarried⟩
      · obtain ⟨other, hother, map, hmap, mapping, hmapping, start, hstart, hend, hcarried⟩ :=
          ih hmoved hrest
        exact ⟨other, List.mem_cons_of_mem part hother, map, hmap, mapping, hmapping, start,
          by omega, by omega, hcarried⟩

/-- The map of joined parts sorts their blocks and lists what the parts list, once each. -/
theorem exists_concat
    (file : Json) (hparts : ∀ part ∈ parts, ∀ map, part.map = some map → map.Joinable) :
    ∃ whole blocks, concat file parts = .ok whole ∧ Laid whole 0 parts blocks ∧
      whole.mappings = Mapping.sort blocks.flatten ∧ whole.Distinct ∧ whole.root = .null ∧
      (∀ listed, listed ∈ whole.sources ↔ ∃ part ∈ parts, ∃ map, part.map = some map ∧
        ∃ source ∈ map.sources, rootedSource map.root source = .ok listed) ∧
      (∀ listed ∈ whole.names, ∃ part ∈ parts, ∃ map, part.map = some map ∧
        listed ∈ map.names) := by
  obtain ⟨whole, blocks, hadd, hextends, hmappings, hlaid, hsources, hnames⟩ :=
    addParts_laid 0
      { sources := [], mappings := [], names := [], file, root := .null
        contents := if parts.any Part.hasContents then some [] else none } hparts
  have hdistinct := hextends.distinct ⟨List.nodup_nil, .nil⟩
  have hsorted := Extends.of_mappings whole (Mapping.sort whole.mappings)
  refine ⟨{ whole with mappings := Mapping.sort whole.mappings }, blocks, ?_,
    hlaid.mono hsorted, ?_, hsorted.distinct hdistinct, hextends.root, ?_, ?_⟩
  · unfold concat
    simp only [hadd, bind, Except.bind, pure, Except.pure]
  · rw [hmappings, List.nil_append]
  · simpa using hsources
  · simpa using hnames

end Parts

/-! ## What counts in a joined map -/

section Nearest

variable {lines : Int} {map whole : SourceMap} {mappings block : List Mapping}

theorem Carried.le_iff {mapping moved : Mapping} (h : Carried lines map whole mapping moved)
    (position : Position) :
    moved.generated.le ⟨position.line + lines, position.column⟩ =
      mapping.generated.le position := by
  rw [Bool.eq_iff_iff, Position.le_iff, Position.le_iff, h.generated]
  dsimp only
  omega

theorem nearest?_cons (mapping : Mapping) (mappings : List Mapping) (position : Position) :
    Lineage.nearest? (mapping :: mappings) position =
      if mapping.generated.le position = true then
        some ((Lineage.nearest? mappings position).getD mapping)
      else none := by
  unfold Lineage.nearest?
  rw [List.takeWhile_cons]
  split
  · exact List.getLast?_cons
  · rfl

theorem sorted_of_carried
    (h : List.Forall₂ (Carried lines map whole) mappings block)
    (hsorted : Mapping.Sorted mappings) : Mapping.Sorted block := by
  induction h with
  | nil => exact .nil
  | @cons mapping moved mappings block hcarried hrest ih =>
      obtain ⟨hhead, htail⟩ := List.pairwise_cons.mp hsorted
      refine List.pairwise_cons.mpr ⟨?_, ih htail⟩
      intro other hother
      obtain ⟨old, hold, hcarried'⟩ := Forall₂.exists_of_mem_right hrest hother
      have hle := hhead old hold
      rw [← hcarried.le_iff] at hle
      rwa [hcarried'.generated]

/-- The nearest of mappings is carried to the nearest of those that they are carried to. -/
theorem nearest?_carried
    (h : List.Forall₂ (Carried lines map whole) mappings block) (position : Position) :
    Option.Rel (Carried lines map whole) (Lineage.nearest? mappings position)
      (Lineage.nearest? block ⟨position.line + lines, position.column⟩) := by
  induction h with
  | nil => exact .none
  | @cons mapping moved mappings block hcarried _ ih =>
      rw [nearest?_cons, nearest?_cons, hcarried.le_iff]
      split
      · exact .some (Option.Rel.getD ih hcarried)
      · exact .none

/-- Of three lists the middle one decides what counts for a position, if what counts of the
first does not lie behind what is found in it and what is in the last lies on later lines. -/
theorem nearest?_sort_middle
    {left right : List Mapping} {position : Position} {moved : Mapping}
    (hblock : Mapping.Sorted block)
    (hnearest : Lineage.nearest? block position = some moved)
    (hleft : ∀ other ∈ left, other.generated.le position = true →
      other.generated.le moved.generated = true)
    (hright : ∀ other ∈ right, position.line < other.generated.line) :
    Lineage.nearest? (Mapping.sort (left ++ (block ++ right))) position = some moved := by
  have hnone : Lineage.nearest? (Mapping.sort right) position = none := by
    cases hfound : Lineage.nearest? (Mapping.sort right) position with
    | none => rfl
    | some other =>
        obtain ⟨hmem, hle⟩ := Lineage.nearest?_eq_some hfound
        rw [Mapping.sort, List.mem_mergeSort] at hmem
        have hline := hright other hmem
        rw [Position.le_iff] at hle
        omega
  rw [Lineage.nearest?_sort_append, Lineage.nearest?_sort_append, hnone, Lineage.later?_none,
    Mapping.sort_of_sorted hblock, hnearest]
  cases hfound : Lineage.nearest? (Mapping.sort left) position with
  | none => rfl
  | some other =>
      obtain ⟨hmem, hle⟩ := Lineage.nearest?_eq_some hfound
      rw [Mapping.sort, List.mem_mergeSort] at hmem
      simp only [Lineage.later?, hleft other hmem hle, if_true]

end Nearest

section Tracing

variable {whole map : SourceMap} {part : Part} {parts before behind : List Part}
  {blocks : List (List Mapping)} {position : Position}

/-- The mapping that counts for a position of a part counts, moved down, for the position in
the joined map. -/
theorem nearest?_of_laid
    {mapping : Mapping} (hlaid : Laid whole 0 (before ++ part :: behind) blocks)
    (hmappings : whole.mappings = Mapping.sort blocks.flatten)
    (hlines : ∀ other ∈ before ++ part :: behind, 0 ≤ other.lines)
    (hparts : ∀ other ∈ before ++ part :: behind, ∀ map, other.map = some map → map.Joinable)
    (hstacked : Stacked (before ++ part :: behind)) (hmap : part.map = some map)
    (hline : behind ≠ [] → position.line < part.lines)
    (hnearest : Lineage.nearest? map.mappings position = some mapping) :
    ∃ moved, Carried (before.map Part.lines).sum map whole mapping moved ∧
      Lineage.nearest? whole.mappings
        ⟨position.line + (before.map Part.lines).sum, position.column⟩ = some moved := by
  have hpart := hparts part (List.mem_append_right before List.mem_cons_self) map hmap
  obtain ⟨left, block, right, rfl, hleft, hblock, hright⟩ := hlaid.split
  rw [Int.zero_add] at hblock hright
  unfold Part.Carries at hblock
  rw [hmap] at hblock
  obtain ⟨moved, hmoved, hcarried⟩ :=
    Option.Rel.exists_right (nearest?_carried hblock position) hnearest
  refine ⟨moved, hcarried, ?_⟩
  rw [hmappings, List.flatten_append, List.flatten_cons]
  apply nearest?_sort_middle (sorted_of_carried hblock hpart.sorted) hmoved
  -- The parts in front end above the lines of this one, and those behind start below the position.
  · intro other hother _
    obtain ⟨first, hfirst, map', hmap', mapping', hmapping', start, -, hend, hother⟩ :=
      hleft.exists_mapping hother fun first hfirst =>
        hlines first (List.mem_append_left _ hfirst)
    have hbelow := (List.pairwise_append.mp hstacked).2.2 first hfirst part List.mem_cons_self
      (by simp [hmap]) map' hmap' mapping' hmapping'
    have hnonneg := hpart.nonneg mapping (Lineage.nearest?_eq_some hnearest).1
    rw [hother.generated, hcarried.generated, Position.le_iff]
    dsimp only
    omega
  · intro other hother
    obtain ⟨last, hlast, map', hmap', mapping', hmapping', start, hstart, -, hother⟩ :=
      hright.exists_mapping hother fun last hlast =>
        hlines last (List.mem_append_right before (List.mem_cons_of_mem part hlast))
    have hlast' := List.mem_append_right before (List.mem_cons_of_mem part hlast)
    have hnonneg := (hparts last hlast' map' hmap').nonneg mapping' hmapping'
    have hinside := hline (List.ne_nil_of_mem hlast)
    rw [hother.generated]
    dsimp only
    omega

/-- Where a carried mapping counts, it leads where the mapping itself leads. -/
theorem exists_origin_of_carried
    {lines : Int} {position' : Position} {mapping moved : Mapping} {own : Text} {origin : Origin}
    (hnearest : Lineage.nearest? map.mappings position = some mapping)
    (hmoved : Lineage.nearest? whole.mappings position' = some moved)
    (hcarried : Carried lines map whole mapping moved)
    (horigin : Lineage.origin ⟨some map, own⟩ position = .ok origin)
    (hmapped : origin.mapped = true) (own' : Text) :
    ∃ origin', Lineage.origin ⟨some whole, own'⟩ position' = .ok origin' ∧
      origin.IsJoined map whole origin' := by
  obtain ⟨mapping', index, hnearest', hindex, hsource, hline, hcolumn, hname⟩ :=
    Lineage.exists_nearest_of_mapped horigin hmapped
  obtain rfl := Option.some.inj (hnearest'.symm.trans hnearest)
  obtain ⟨place, hplace, -, source, rooted, hentry, hentry', hrooted⟩ :=
    Option.Rel.exists_right hcarried.source hindex
  have heq : source = origin.source := Option.some.inj (hentry.symm.trans hsource)
  refine ⟨_, Lineage.origin_of_nearest hmoved hplace hentry' own', rfl, ?_, ?_, ?_, ?_⟩
  · rw [hline, hcarried.line]
  · rw [hcolumn, hcarried.column]
  · rwa [heq] at hrooted
  · rw [hname]
    exact hcarried.name

theorem exists_origin_of_laid
    {own : Text} {origin : Origin} (hlaid : Laid whole 0 (before ++ part :: behind) blocks)
    (hmappings : whole.mappings = Mapping.sort blocks.flatten)
    (hlines : ∀ other ∈ before ++ part :: behind, 0 ≤ other.lines)
    (hparts : ∀ other ∈ before ++ part :: behind, ∀ map, other.map = some map → map.Joinable)
    (hstacked : Stacked (before ++ part :: behind)) (hmap : part.map = some map)
    (hline : behind ≠ [] → position.line < part.lines)
    (horigin : Lineage.origin ⟨some map, own⟩ position = .ok origin)
    (hmapped : origin.mapped = true) (own' : Text) :
    ∃ origin', Lineage.origin ⟨some whole, own'⟩
        ⟨position.line + (before.map Part.lines).sum, position.column⟩ = .ok origin' ∧
      origin.IsJoined map whole origin' := by
  obtain ⟨mapping, -, hnearest, -⟩ := Lineage.exists_nearest_of_mapped horigin hmapped
  obtain ⟨moved, hcarried, hmoved⟩ :=
    nearest?_of_laid hlaid hmappings hlines hparts hstacked hmap hline hnearest
  exact exists_origin_of_carried hnearest hmoved hcarried horigin hmapped own'

end Tracing

theorem Distinct.names_nodup
    {map : SourceMap} (h : map.Distinct)
    (hnames : ∀ name ∈ map.names, ∃ text, name = .string text) : map.names.Nodup := by
  refine h.names.imp_of_mem fun {name other} hname _ hdiffer heq => ?_
  obtain ⟨text, rfl⟩ := hnames name hname
  subst heq
  simp [Json.same] at hdiffer

/-- Stacked parts can be joined.  The map of the whole is in order, without repetitions and
in range, and traces every position of a part that the map of the part traces to an origin
to that origin, to the source behind the root of that map, and with the same name. -/
theorem concat_traces
    (file : Json) (parts : List Part) (hlines : ∀ part ∈ parts, 0 ≤ part.lines)
    (hparts : ∀ part ∈ parts, ∀ map, part.map = some map → map.Joinable)
    (hnames : ∀ part ∈ parts, ∀ map, part.map = some map →
      ∀ name ∈ map.names, ∃ text, name = .string text)
    (hstacked : Stacked parts) :
    ∃ whole, concat file parts = .ok whole ∧ whole.sources.Nodup ∧ whole.names.Nodup ∧
      (∀ mapping ∈ whole.mappings, mapping.Indexed whole.limits) ∧
      Mapping.Sorted whole.mappings ∧
      ∀ before part behind map, parts = before ++ part :: behind → part.map = some map →
        ∀ (position : Position) (origin : Origin) (own own' : Text),
          (behind ≠ [] → position.line < part.lines) →
          Lineage.origin ⟨some map, own⟩ position = .ok origin → origin.mapped = true →
          ∃ origin', Lineage.origin ⟨some whole, own'⟩
              ⟨position.line + (before.map Part.lines).sum, position.column⟩ = .ok origin' ∧
            origin'.mapped = true ∧ origin'.line = origin.line ∧
            origin'.column = origin.column ∧
            rootedSource map.root origin.source = .ok origin'.source ∧
            origin'.nameIn? whole = origin.nameIn? map := by
  obtain ⟨whole, blocks, hconcat, hlaid, hmappings, hdistinct, -, -, hlisted⟩ :=
    exists_concat file hparts
  have htexts : ∀ name ∈ whole.names, ∃ text, name = .string text := by
    intro name hname
    obtain ⟨part, hpart, map, hmap, hname⟩ := hlisted name hname
    exact hnames part hpart map hmap name hname
  refine ⟨whole, hconcat, hdistinct.sources, hdistinct.names_nodup htexts, ?_, ?_, ?_⟩
  · intro moved hmoved
    rw [hmappings, Mapping.sort, List.mem_mergeSort] at hmoved
    obtain ⟨part, -, map, -, mapping, -, start, -, -, hcarried⟩ :=
      hlaid.exists_mapping hmoved hlines
    exact hcarried.indexed
  · rw [hmappings]
    exact Mapping.sorted_sort blocks.flatten
  · rintro before part behind map rfl hmap position origin own own' hline horigin hmapped
    obtain ⟨origin', horigin', hjoined⟩ :=
      exists_origin_of_laid hlaid hmappings hlines hparts hstacked hmap hline horigin hmapped own'
    refine ⟨origin', horigin', hjoined.mapped, hjoined.line, hjoined.column, hjoined.source, ?_⟩
    have hpartNames := hnames part (List.mem_append_right before List.mem_cons_self) map hmap
    exact hjoined.name_eq hpartNames htexts

/-- The map of a text of one line that comes from the start of a source. -/
def ofStart (root : Json) (source : Text) (name : Json) : SourceMap where
  sources := [source]
  mappings :=
    [{ generated := ⟨0, 0⟩, source := some 0, line := some 0, column := some 0, name := some 0 }]
  names := [name]
  file := .null
  root
  contents := none

theorem joinable_ofStart (root source : Text) (name : Json) :
    (ofStart (.string root) source name).Joinable where
  sorted := List.pairwise_singleton _ _
  indexed := by
    intro mapping hmapping
    rw [List.mem_singleton.mp hmapping]
    exact ⟨by simp [Mapping.InRange, limits, ofStart], by simp [limits, ofStart], by simp⟩
  nonneg := by
    intro mapping hmapping
    rw [List.mem_singleton.mp hmapping]
  root := fun _ => ⟨root, rfl⟩

/-- Behind a sheet and a text without a map a position of a second sheet is traced to its
source behind the root. -/
theorem concat_traces_of_gap :
    ∃ whole, concat .null
        [⟨1, some (ofStart (.string []) "a.css".text (.string "x".text))⟩, ⟨2, none⟩,
          ⟨0, some (ofStart (.string "lib/".text) "b.css".text (.string "x".text))⟩] = .ok whole ∧
      ∃ origin', Lineage.origin ⟨some whole, []⟩ ⟨3, 5⟩ = .ok origin' ∧
        origin'.source = "lib/b.css".text ∧ origin'.line = some 0 := by
  obtain ⟨whole, hconcat, -, -, -, -, htraces⟩ := concat_traces .null
    [⟨1, some (ofStart (.string []) "a.css".text (.string "x".text))⟩, ⟨2, none⟩,
      ⟨0, some (ofStart (.string "lib/".text) "b.css".text (.string "x".text))⟩]
    (by simp) (by simp [joinable_ofStart]) (by simp [ofStart]) (by simp [Stacked, ofStart])
  obtain ⟨origin', horigin', -, hline, -, hsource, -⟩ :=
    htraces [⟨1, some (ofStart (.string []) "a.css".text (.string "x".text))⟩, ⟨2, none⟩] _ [] _
      rfl rfl ⟨0, 5⟩
      { source := "b.css".text, line := some 0, column := some 0, sourceIndex := some 0,
        name := some 0 } [] [] (by simp) rfl rfl
  have hrooted : rootedSource (.string "lib/".text) "b.css".text = .ok "lib/b.css".text := by cbv
  exact ⟨whole, hconcat, origin', horigin', Except.ok.inj (hsource.symm.trans hrooted), hline⟩

/-- Whether the indices of a map are in range, its positions are not negative and its names
are texts. -/
def InBounds (map : SourceMap) : Prop :=
  (∀ mapping ∈ map.mappings, mapping.InRange map.sources.length ∧
    (∀ index, mapping.name = some index → 0 ≤ index ∧ index < map.names.length) ∧
    0 ≤ mapping.generated.line ∧ 0 ≤ mapping.generated.column) ∧
  ∀ name ∈ map.names, ∃ text, name = .string text

/-- A map with a name, listed twice, that only a mapping without a source has. -/
def withLooseName : SourceMap where
  sources := ["a.css".text]
  mappings := [{ generated := ⟨0, 0⟩, name := some 1 }]
  names := [.string "x".text, .string "x".text]
  file := .null
  root := .null
  contents := none

/-- Being in bounds is not enough: a root that is a number is put before no source, and a
name without a source keeps its index, which may be out of range in the whole. -/
theorem exists_not_joined :
    ((ofStart (.int 5) "a.css".text (.string "x".text)).InBounds ∧
      ∀ whole, concat .null [⟨1, some (ofStart (.int 5) "a.css".text (.string "x".text))⟩] ≠
        .ok whole) ∧
    (withLooseName.InBounds ∧
      ∃ whole, concat .null [⟨1, some withLooseName⟩] = .ok whole ∧
        ∃ mapping ∈ whole.mappings, ∃ index, mapping.name = some index ∧
          ¬index < whole.names.length) := by
  refine ⟨⟨?_, ?_⟩, ?_, ?_⟩
  · simp [InBounds, ofStart, Mapping.InRange]
  · intro whole
    have hrefused : concat .null
        [⟨1, some (ofStart (.int 5) "a.css".text (.string "x".text))⟩] =
          .error .rootNotText := by rfl
    rw [hrefused]
    simp
  · simp [InBounds, withLooseName, Mapping.InRange]
  · refine ⟨⟨["a.css".text], Mapping.sort [{ generated := ⟨0, 0⟩, name := some 1 }],
      [.string "x".text], .null, .null, none⟩, by rfl, { generated := ⟨0, 0⟩, name := some 1 },
      ?_, 1, rfl, by simp⟩
    rw [Mapping.sort, List.mem_mergeSort]
    exact List.mem_singleton_self _

end SourceMap

end UrlRebase
