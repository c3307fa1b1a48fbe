import UrlRebase.Proofs.NearestMapping
import UrlRebase.Proofs.WrittenMappings

/-!
# Mappings restored from what was written

The writer and the reader of mappings go through a list in step: behind each segment both
have the same column and the same running values.  So a segment that is written at a column
is read there as its mapping, and the lines of segments that are written from a line on are
read from this line on as the mappings.  The separators add nothing, for no segment has one
in it.
-/

namespace UrlRebase

namespace Text

theorem fields_eq_splitOn (separator : CodePoint) (text : Text) :
    fields separator text = text.splitOn separator := by
  induction text with
  | nil => rfl
  | cons c rest ih =>
      rw [fields, List.splitOn_cons_eq_if_modifyHead, ih]
      by_cases hc : c = separator
      · simp [hc]
      · obtain ⟨field, others, hfields⟩ :=
          List.exists_cons_of_ne_nil (List.splitOn_ne_nil separator rest)
        simp [hc, hfields]

theorem fields_joined
    {separator : CodePoint} {parts : List Text} (hparts : ∀ part ∈ parts, separator ∉ part)
    (hne : parts ≠ []) :
    fields separator (joined [separator] parts) = parts := by
  rw [fields_eq_splitOn]
  exact List.splitOn_intercalate separator hparts hne

theorem notMem_joined
    {c separator : CodePoint} {parts : List Text} (hc : c ≠ separator)
    (hparts : ∀ part ∈ parts, c ∉ part) :
    c ∉ joined [separator] parts := by
  unfold joined
  induction parts with
  | nil => simp
  | cons part parts ih =>
      have hrest := ih fun other hother => hparts other (List.mem_cons_of_mem part hother)
      have hpart := hparts part List.mem_cons_self
      cases parts with
      | nil => simpa using hpart
      | cons next parts =>
          rw [List.intercalate_cons_cons]
          simp [hpart, hc, hrest]

end Text

namespace Vlq

theorem digits_lt (n : Nat) : ∀ d ∈ digits n, d < 64 := by
  fun_induction digits n with
  | case1 n hn =>
      intro d hd
      rw [List.mem_singleton.mp hd]
      omega
  | case2 n hn ih =>
      intro d hd
      rcases List.mem_cons.mp hd with rfl | hd
      · omega
      · exact ih d hd

theorem notMem_encode {c : CodePoint} (hc : digit? c = none) (values : List Int) :
    c ∉ encode values := by
  intro hmem
  obtain ⟨value, -, hvalue⟩ := List.mem_flatMap.mp hmem
  obtain ⟨d, hd, rfl⟩ := List.mem_map.mp hvalue
  exact digit_ne_of_digit?_eq_none hc (digits_lt _ d hd) rfl

theorem encode_ne_nil {values : List Int} (hvalues : values ≠ []) : encode values ≠ [] := by
  intro hnil
  have hdecode := decode_encode values
  rw [hnil] at hdecode
  exact hvalues (Except.ok.inj hdecode).symm

end Vlq

namespace Mapping

variable {limits : Limits}

/-! ## One segment -/

/-- The differences of a mapping to what came before it, as a segment, are read as the
mapping, and leave the reader with the running values that they leave the writer with. -/
theorem decodeSegment_differences
    {line : Nat} {mapping : Mapping} (hwf : mapping.WellFormed limits)
    (hline : mapping.generated.line = line) (column : Int) (running : Running) :
    ∃ fields moved, differences column running mapping = .ok (fields, moved) ∧ fields ≠ [] ∧
      decodeSegment limits line column running (Vlq.encode fields) = .ok (mapping, moved) := by
  cases hwf with
  | @unmapped line' column' hline' hcolumn =>
      obtain rfl : line' = line := hline
      refine ⟨[column' - column], running, rfl, by simp, ?_⟩
      unfold decodeSegment
      rw [Vlq.decode_encode]
      simp [bind, Except.bind, Int.not_lt.mpr hcolumn]
  | @mapped line' column' source originLine originColumn name hline' hcolumn hsource horigin
      hname =>
      obtain rfl : line' = line := hline
      cases name with
      | none =>
          refine ⟨_, _, rfl, by simp, ?_⟩
          unfold decodeSegment
          rw [Vlq.decode_encode]
          have hrange : ¬(source < 0 ∨ limits.sources ≤ source) := by omega
          have hplace : ¬(originLine < 0 ∨ originColumn < 0) := by omega
          simp [bind, Except.bind, decodeOrigin, ofRunning, Int.not_lt.mpr hcolumn, hrange, hplace]
      | some name =>
          refine ⟨_, _, rfl, by simp, ?_⟩
          unfold decodeSegment
          rw [List.cons_append, Vlq.decode_encode]
          have hindex := hname name rfl
          have hrange : ¬(source < 0 ∨ limits.sources ≤ source) := by omega
          have hplace : ¬(originLine < 0 ∨ originColumn < 0) := by omega
          have hlisted : ¬(name < 0 ∨ limits.names ≤ name) := by omega
          simp [bind, Except.bind, decodeOrigin, ofRunning, Int.not_lt.mpr hcolumn, hrange, hplace,
            hlisted]

/-! ## Lines of segments -/

/-- Reads lines of segments, the first of them from the given column on. -/
def decodeGroups (limits : Limits) (line : Nat) (column : Int) (running : Running) :
    List (List Text) → Except Malformed (List Mapping)
  | [] => .ok []
  | group :: groups =>
      match decodeLine limits line column running group with
      | .error error => .error error
      | .ok (found, running) =>
          match decodeGroups limits (line + 1) 0 running groups with
          | .error error => .error error
          | .ok others => .ok (found ++ others)

theorem decodeGroups_prepend
    {line : Nat} {column : Int} {running moved : Running} {segment : Text} {mapping : Mapping}
    {groups : List (List Text)} {rest : List Mapping} (hne : segment ≠ [])
    (hsegment : decodeSegment limits line column running segment = .ok (mapping, moved))
    (hgroups : decodeGroups limits line mapping.generated.column moved groups = .ok rest) :
    decodeGroups limits line column running (prepend segment groups) = .ok (mapping :: rest) := by
  cases groups with
  | nil =>
      obtain rfl := Except.ok.inj hgroups
      simp [prepend, decodeGroups, decodeLine, hne, hsegment]
  | cons group groups =>
      simp only [prepend, decodeGroups, decodeLine, if_neg hne, hsegment]
      rw [decodeGroups] at hgroups
      cases hline : decodeLine limits line mapping.generated.column moved group with
      | error error => simp [hline] at hgroups
      | ok first =>
          obtain ⟨found, running'⟩ := first
          cases hothers : decodeGroups limits (line + 1) 0 running' groups with
          | error error => simp [hline, hothers] at hgroups
          | ok others =>
              simp only [hline, hothers] at hgroups
              obtain rfl := Except.ok.inj hgroups
              simp only [hothers, List.cons_append]

/-- Whether segments are spellings of some integers each, of at least one. -/
def Encoded (groups : List (List Text)) : Prop :=
  ∀ group ∈ groups, ∀ segment ∈ group, ∃ fields, fields ≠ [] ∧ segment = Vlq.encode fields

theorem encoded_prepend
    {fields : List Int} {groups : List (List Text)} (hfields : fields ≠ [])
    (hgroups : Encoded groups) :
    Encoded (prepend (Vlq.encode fields) groups) ∧ prepend (Vlq.encode fields) groups ≠ [] := by
  cases groups with
  | nil =>
      refine ⟨?_, by simp [prepend]⟩
      intro group hgroup segment hsegment
      rw [List.mem_singleton.mp hgroup] at hsegment
      exact ⟨fields, hfields, List.mem_singleton.mp hsegment⟩
  | cons first groups =>
      refine ⟨?_, by simp [prepend]⟩
      intro group hgroup segment hsegment
      rcases List.mem_cons.mp hgroup with rfl | hgroup
      · rcases List.mem_cons.mp hsegment with rfl | hsegment
        · exact ⟨fields, hfields, rfl⟩
        · exact hgroups first List.mem_cons_self segment hsegment
      · exact hgroups group (List.mem_cons_of_mem first hgroup) segment hsegment

/-- Sorted mappings are written as lines of segments that are read as the mappings. -/
theorem exists_segments
    (line : Nat) (column : Int) (running : Running) (mappings : List Mapping)
    (hsorted : Sorted mappings) (hwf : ∀ mapping ∈ mappings, mapping.WellFormed limits)
    (hline : ∀ mapping ∈ mappings, (line : Int) ≤ mapping.generated.line) :
    ∃ groups, segments line column running mappings = .ok groups ∧
      Encoded groups ∧ groups ≠ [] ∧
      decodeGroups limits line column running groups = .ok mappings := by
  -- The induction is on the writer's recursion; the column and the running values it carries
  -- are also the reader's, which is what `decodeSegment_differences` keeps.
  fun_induction segments line column running mappings with
  | case1 line column running =>
      exact ⟨[[]], rfl, by simp [Encoded], by simp, rfl⟩
  | case2 line column running mapping rest hbehind ih =>
      have hnext : ∀ other ∈ mapping :: rest, ((line + 1 : Nat) : Int) ≤ other.generated.line := by
        intro other hother
        rcases List.mem_cons.mp hother with rfl | hother
        · omega
        · have hle := Position.le_iff.mp (List.rel_of_pairwise_cons hsorted hother)
          omega
      obtain ⟨groups, hgroups, hencoded, -, hread⟩ := ih hsorted hwf hnext
      refine ⟨[] :: groups, by rw [hgroups]; rfl, ?_, by simp, ?_⟩
      · intro group hgroup segment hsegment
        rcases List.mem_cons.mp hgroup with rfl | hgroup
        · simp at hsegment
        · exact hencoded group hgroup segment hsegment
      · simp only [decodeGroups, decodeLine, hread, List.nil_append]
  | case3 line column running mapping rest hbehind error herror =>
      have hhere : mapping.generated.line = line := by
        have hle := hline mapping List.mem_cons_self
        omega
      obtain ⟨fields, moved, hfields, -⟩ := decodeSegment_differences
        (hwf mapping List.mem_cons_self) hhere column running
      rw [herror] at hfields
      simp at hfields
  | case4 line column running mapping rest hbehind fields moved hfields ih =>
      have hhere : mapping.generated.line = line := by
        have hle := hline mapping List.mem_cons_self
        omega
      obtain ⟨fields', moved', hfields', hne, hsegment⟩ := decodeSegment_differences
        (hwf mapping List.mem_cons_self) hhere column running
      rw [hfields] at hfields'
      obtain ⟨rfl, rfl⟩ := Prod.mk.inj (Except.ok.inj hfields')
      obtain ⟨groups, hgroups, hencoded, -, hread⟩ := ih (List.Pairwise.of_cons hsorted)
        (fun other hother => hwf other (List.mem_cons_of_mem mapping hother))
        (fun other hother => hline other (List.mem_cons_of_mem mapping hother))
      obtain ⟨hencoded', hne'⟩ := encoded_prepend hne hencoded
      exact ⟨prepend (Vlq.encode fields) groups, by rw [hgroups]; rfl, hencoded', hne',
        decodeGroups_prepend (Vlq.encode_ne_nil hne) hsegment hread⟩

/-! ## Separators -/

theorem Encoded.notMem
    {groups : List (List Text)} (h : Encoded groups) {c : CodePoint} (hc : Vlq.digit? c = none) :
    ∀ group ∈ groups, ∀ segment ∈ group, c ∉ segment := by
  intro group hgroup segment hsegment
  obtain ⟨fields, -, rfl⟩ := h group hgroup segment hsegment
  exact Vlq.notMem_encode hc fields

theorem decodeLine_fields_joined
    {group : List Text} (hgroup : ∀ segment ∈ group, CodePoint.char ',' ∉ segment)
    (line : Nat) (column : Int) (running : Running) :
    decodeLine limits line column running (Text.fields ',' (Text.joined [','] group)) =
      decodeLine limits line column running group := by
  cases group with
  | nil => rfl
  | cons segment group => rw [Text.fields_joined hgroup (by simp)]

theorem decodeLines_joined
    {groups : List (List Text)} (hgroups : ∀ group ∈ groups, ∀ segment ∈ group,
      CodePoint.char ',' ∉ segment) (line : Nat) (running : Running) :
    decodeLines limits line running (groups.map (Text.joined [','])) =
      decodeGroups limits line 0 running groups := by
  induction groups generalizing line running with
  | nil => rfl
  | cons group groups ih =>
      have hrest := ih fun other hother => hgroups other (List.mem_cons_of_mem group hother)
      rw [List.map_cons, decodeLines, decodeGroups,
        decodeLine_fields_joined (hgroups group List.mem_cons_self)]
      cases decodeLine limits line 0 running group with
      | error error => rfl
      | ok first =>
          cases hothers : decodeGroups limits (line + 1) 0 first.2 groups <;> simp [hrest, hothers]

theorem decode_joined
    {groups : List (List Text)} (hencoded : Encoded groups) (hne : groups ≠ []) :
    decode limits (Text.joined [';'] (groups.map (Text.joined [',']))) =
      decodeGroups limits 0 0 {} groups := by
  have hsemicolon : ∀ group ∈ groups.map (Text.joined [',']), CodePoint.char ';' ∉ group := by
    intro text htext
    obtain ⟨group, hgroup, rfl⟩ := List.mem_map.mp htext
    exact Text.notMem_joined (by decide) (hencoded.notMem (by decide) group hgroup)
  rw [decode, Text.fields_joined hsemicolon (by simpa using hne),
    decodeLines_joined (hencoded.notMem (by decide))]

/-! ## Whole lists -/

/-- Sorting keeps the order of mappings at one position. -/
theorem filter_sort (mappings : List Mapping) (position : Position) :
    (sort mappings).filter (·.generated = position) =
      mappings.filter (·.generated = position) := by
  have hpairwise : (mappings.filter (·.generated = position)).Pairwise
      fun left right => left.generated.le right.generated = true := by
    apply List.pairwise_of_forall_mem_list
    intro left hleft right hright
    have hleft : left.generated = position := by simpa using List.of_mem_filter hleft
    have hright : right.generated = position := by simpa using List.of_mem_filter hright
    rw [hleft, hright]
    exact Position.le_refl position
  have hsublist := (List.sublist_mergeSort le_trans le_total hpairwise
    List.filter_sublist).filter (·.generated = position)
  rw [List.filter_filter] at hsublist
  simp only [Bool.and_self] at hsublist
  have hperm := (List.mergeSort_perm mappings
    fun left right => left.generated.le right.generated).filter (·.generated = position)
  exact (hsublist.eq_of_length hperm.length_eq.symm).symm

/-- Mappings are written as lines of segments that are read as the mappings in order. -/
theorem exists_encode_segments
    {mappings : List Mapping} (hwf : ∀ mapping ∈ mappings, mapping.WellFormed limits) :
    ∃ groups, encode mappings = .ok (Text.joined [';'] (groups.map (Text.joined [',']))) ∧
      Encoded groups ∧ groups ≠ [] ∧ decodeGroups limits 0 0 {} groups = .ok (sort mappings) := by
  have hsorted : ∀ mapping ∈ sort mappings, mapping.WellFormed limits := by
    intro mapping hmapping
    exact hwf mapping (List.mem_mergeSort.mp hmapping)
  have hline : ∀ mapping ∈ sort mappings, 0 ≤ mapping.generated.line := by
    intro mapping hmapping
    cases hsorted mapping hmapping <;> assumption
  obtain ⟨groups, hgroups, hencoded, hne, hread⟩ := exists_segments 0 0 {} (sort mappings)
    (sorted_sort mappings) hsorted (by simpa using hline)
  have hhead : ¬(sort mappings).head?.any (fun mapping => mapping.generated.line < 0) := by
    intro hany
    obtain ⟨mapping, hhead, hneg⟩ := (Option.any_eq_true _ _).mp hany
    have hnonneg := hline mapping (List.mem_of_head? hhead)
    rw [decide_eq_true_eq] at hneg
    omega
  refine ⟨groups, ?_, hencoded, hne, hread⟩
  simp only [encode, if_neg hhead, hgroups]
  rfl

theorem exists_encode
    {mappings : List Mapping} (hwf : ∀ mapping ∈ mappings, mapping.WellFormed limits) :
    ∃ written, encode mappings = .ok written ∧ decode limits written = .ok (sort mappings) := by
  obtain ⟨groups, hgroups, hencoded, hne, hread⟩ := exists_encode_segments hwf
  exact ⟨_, hgroups, by rw [decode_joined hencoded hne, hread]⟩

/-- A written list has nothing in it but digits and separators. -/
theorem notMem_encode
    {mappings : List Mapping} (hwf : ∀ mapping ∈ mappings, mapping.WellFormed limits)
    {written : Text} (hwritten : encode mappings = .ok written) {c : CodePoint}
    (hc : Vlq.digit? c = none) (hcomma : c ≠ ',') (hsemicolon : c ≠ ';') :
    c ∉ written := by
  obtain ⟨groups, hgroups, hencoded, -, -⟩ := exists_encode_segments hwf
  obtain rfl := Except.ok.inj (hgroups.symm.trans hwritten)
  apply Text.notMem_joined hsemicolon
  intro text htext
  obtain ⟨group, hgroup, rfl⟩ := List.mem_map.mp htext
  exact Text.notMem_joined hcomma (hencoded.notMem hc group hgroup)

/-- Mappings that a written list can describe are restored from what is written of them, in
order of generated position and otherwise in their own order; so are those that were read. -/
theorem decode_encode_eq_sort (limits : Limits) (mappings : List Mapping) :
    ((∀ mapping ∈ mappings, mapping.WellFormed limits) →
      ∃ written, encode mappings = .ok written ∧ decode limits written = .ok (sort mappings)) ∧
    (∀ written, decode limits written = .ok mappings →
      ∃ written', encode mappings = .ok written' ∧
        decode limits written' = .ok (sort mappings)) ∧
    Sorted (sort mappings) ∧ (sort mappings).Perm mappings ∧
    ∀ position, (sort mappings).filter (·.generated = position) =
      mappings.filter (·.generated = position) :=
  ⟨exists_encode, fun _ h => exists_encode (wellFormed_of_decode h), sorted_sort mappings,
    List.mergeSort_perm _ _, filter_sort mappings⟩

theorem decode_encode_of_unsorted :
    ∃ mappings : List Mapping,
      mappings = [⟨⟨3, 0⟩, some 1, some (10 ^ 30), some 2, some 0⟩, { generated := ⟨0, 7⟩ },
        ⟨⟨0, 7⟩, some 0, some 4, some 0, none⟩, ⟨⟨0, 2⟩, some 1, some 9, some 5, none⟩] ∧
      (∀ mapping ∈ mappings, mapping.WellFormed ⟨2, 1⟩) ∧
      (∃ written, encode mappings = .ok written ∧ decode ⟨2, 1⟩ written = .ok (sort mappings)) ∧
      ∃ written, encode (sort mappings) = .ok written ∧
        decode ⟨2, 1⟩ written = .ok (sort (sort mappings)) := by
  refine ⟨_, rfl, ?_⟩
  generalize hmappings :
    [(⟨⟨3, 0⟩, some 1, some (10 ^ 30), some 2, some 0⟩ : Mapping), { generated := ⟨0, 7⟩ },
      ⟨⟨0, 7⟩, some 0, some 4, some 0, none⟩, ⟨⟨0, 2⟩, some 1, some 9, some 5, none⟩] = mappings
  have hwf : ∀ mapping ∈ mappings, mapping.WellFormed ⟨2, 1⟩ := by
    rw [← hmappings]
    simp [wellFormed_unmapped_iff, wellFormed_mapped_iff]
  obtain ⟨written, hwritten, hread⟩ := (decode_encode_eq_sort ⟨2, 1⟩ mappings).1 hwf
  exact ⟨hwf, ⟨written, hwritten, hread⟩,
    (decode_encode_eq_sort ⟨2, 1⟩ (sort mappings)).2.1 written hread⟩

end Mapping

end UrlRebase
