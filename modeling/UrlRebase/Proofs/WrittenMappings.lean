import UrlRebase.Proofs.SpelledIntegers
import UrlRebase.SourceMap.Mapping

/-!
# Written lists of mappings

A written list falls into segments, each on a line.  The integers that the segments spell
are added up: the first ones along each line, the others over the whole list.  The mapping
of a segment is what the sums are behind it, so a written list describes mappings if its
segments are spelled, have as many integers as a mapping has fields, and never lead out of
range.  Reading gives these mappings, and otherwise the first fault of the list.
-/

namespace UrlRebase

namespace Mapping

/-- Whether a mapping is one that a written list can describe: on a line and a column, and
with a source only if that is listed, with a place in it and with a name only if that is
listed too. -/
inductive WellFormed (limits : Limits) : Mapping → Prop
  | unmapped {line column : Int} (hline : 0 ≤ line) (hcolumn : 0 ≤ column) :
      WellFormed limits { generated := ⟨line, column⟩ }
  | mapped {line column source originLine originColumn : Int} {name : Option Int}
      (hline : 0 ≤ line) (hcolumn : 0 ≤ column)
      (hsource : 0 ≤ source ∧ source < limits.sources)
      (horigin : 0 ≤ originLine ∧ 0 ≤ originColumn)
      (hname : ∀ index, name = some index → 0 ≤ index ∧ index < limits.names) :
      WellFormed limits ⟨⟨line, column⟩, some source, some originLine, some originColumn, name⟩

theorem wellFormed_unmapped_iff {limits : Limits} {line column : Int} :
    WellFormed limits { generated := ⟨line, column⟩ } ↔ 0 ≤ line ∧ 0 ≤ column := by
  constructor
  · rintro ⟨hline, hcolumn⟩
    exact ⟨hline, hcolumn⟩
  · rintro ⟨hline, hcolumn⟩
    exact .unmapped hline hcolumn

theorem wellFormed_mapped_iff
    {limits : Limits} {line column source originLine originColumn : Int} {name : Option Int} :
    WellFormed limits
        ⟨⟨line, column⟩, some source, some originLine, some originColumn, name⟩ ↔
      (0 ≤ line ∧ 0 ≤ column) ∧ (0 ≤ source ∧ source < limits.sources) ∧
        (0 ≤ originLine ∧ 0 ≤ originColumn) ∧
        ∀ index, name = some index → 0 ≤ index ∧ index < limits.names := by
  constructor
  · intro h
    cases h with
    | mapped hline hcolumn hsource horigin hname =>
        exact ⟨⟨hline, hcolumn⟩, hsource, horigin, hname⟩
  · rintro ⟨⟨hline, hcolumn⟩, hsource, horigin, hname⟩
    exact .mapped hline hcolumn hsource horigin hname

/-! ## Segments and sums -/

/-- A segment: its line and the integers that it spells. -/
structure Fields where
  line : Nat
  values : List Int

/-- The segments of lines that are not empty, each with its line, counted from the given one. -/
def segmentsFrom (line : Nat) (groups : List Text) : List (Nat × Text) :=
  (groups.zipIdx line).flatMap fun (group, line) =>
    ((Text.fields ',' group).filter (· ≠ [])).map fun segment => (line, segment)

/-- The segments of a written list that are not empty, each with its line. -/
def writtenSegments (written : Text) : List (Nat × Text) :=
  segmentsFrom 0 (Text.fields ';' written)

/-- Whether a segment on a line spells integers. -/
def Reads (segment : Nat × Text) (fields : Fields) : Prop :=
  fields.line = segment.1 ∧ Vlq.Spells segment.2 fields.values

/-- Whether integers are as many as a mapping has fields: its column alone, a place in a
source with it, or a name besides. -/
def HasCount (values : List Int) : Prop :=
  values.length = 1 ∨ values.length = 4 ∨ values.length = 5

namespace Fields

/-- The sum of one of the fields over segments; a segment without it adds nothing. -/
def total (field : Nat) (segments : List Fields) : Int :=
  (segments.map fun segment => segment.values.getD field 0).sum

/-- The sum of the first fields over the segments on a line. -/
def columnOn (line : Nat) (segments : List Fields) : Int :=
  total 0 (segments.filter fun segment => segment.line = line)

/-- The sums of the other fields. -/
def running (segments : List Fields) : Running where
  source := total 1 segments
  line := total 2 segments
  column := total 3 segments
  name := total 4 segments

/-- The mapping of the last of some segments: the sums of the fields that it has. -/
def mapping (segments : List Fields) (last : Fields) : Mapping where
  generated := ⟨last.line, columnOn last.line segments⟩
  source := if 1 < last.values.length then some (total 1 segments) else none
  line := if 2 < last.values.length then some (total 2 segments) else none
  column := if 3 < last.values.length then some (total 3 segments) else none
  name := if 4 < last.values.length then some (total 4 segments) else none

/-- The mappings of segments that come behind others. -/
def mappings (before segments : List Fields) : List Mapping :=
  segments.mapIdx fun i last => mapping (before ++ segments.take (i + 1)) last

@[simp] theorem mappings_nil (before : List Fields) : mappings before [] = [] := rfl

@[simp] theorem mappings_cons (before : List Fields) (segment : Fields) (rest : List Fields) :
    mappings before (segment :: rest) =
      mapping (before ++ [segment]) segment :: mappings (before ++ [segment]) rest := by
  simp [mappings, List.mapIdx_cons]

@[simp] theorem total_append_singleton
    (field : Nat) (segments : List Fields) (segment : Fields) :
    total field (segments ++ [segment]) = total field segments + segment.values.getD field 0 := by
  simp [total]

@[simp] theorem columnOn_append_singleton (segments : List Fields) (segment : Fields) :
    columnOn segment.line (segments ++ [segment]) =
      columnOn segment.line segments + segment.values.getD 0 0 := by
  simp [columnOn]

theorem columnOn_of_forall_lt
    {line : Nat} {segments : List Fields} (h : ∀ segment ∈ segments, segment.line < line) :
    columnOn line segments = 0 := by
  have hnil : segments.filter (fun segment => segment.line = line) = [] := by
    rw [List.filter_eq_nil_iff]
    intro segment hsegment
    simpa using (h segment hsegment).ne
  rw [columnOn, hnil]
  rfl

end Fields

/-! ## One segment -/

section Segment

variable {limits : Limits} {before : List Fields} {line : Nat} {segment : Text}
  {values : List Int}

open Fields

/-- What is wrong with a segment on a line, behind others: how it is spelled, how many
integers it has, or which of the sums leads out of range. -/
inductive Fault (limits : Limits) (before : List Fields) (line : Nat) (segment : Text) :
    Malformed → Prop
  | spelling {error : Malformed} (hmisspelt : Vlq.Misspelt segment error) :
      Fault limits before line segment error
  | count {values : List Int} (hspells : Vlq.Spells segment values) (hcount : ¬HasCount values) :
      Fault limits before line segment (.fieldCount segment values.length)
  | column {values : List Int} (hspells : Vlq.Spells segment values) (hcount : HasCount values)
      (hcolumn : columnOn line (before ++ [⟨line, values⟩]) < 0) :
      Fault limits before line segment (.negativeColumn line)
  | source {values : List Int} (hspells : Vlq.Spells segment values) (hcount : HasCount values)
      (hcolumn : 0 ≤ columnOn line (before ++ [⟨line, values⟩])) (hlength : 1 < values.length)
      (hsource : total 1 (before ++ [⟨line, values⟩]) < 0 ∨
        limits.sources ≤ total 1 (before ++ [⟨line, values⟩])) :
      Fault limits before line segment
        (.sourceOutOfRange (total 1 (before ++ [⟨line, values⟩])))
  | origin {values : List Int} (hspells : Vlq.Spells segment values) (hcount : HasCount values)
      (hcolumn : 0 ≤ columnOn line (before ++ [⟨line, values⟩])) (hlength : 1 < values.length)
      (hsource : 0 ≤ total 1 (before ++ [⟨line, values⟩]) ∧
        total 1 (before ++ [⟨line, values⟩]) < limits.sources)
      (horigin : total 2 (before ++ [⟨line, values⟩]) < 0 ∨
        total 3 (before ++ [⟨line, values⟩]) < 0) :
      Fault limits before line segment .negativeOrigin
  | name {values : List Int} (hspells : Vlq.Spells segment values) (hcount : HasCount values)
      (hcolumn : 0 ≤ columnOn line (before ++ [⟨line, values⟩])) (hlength : 4 < values.length)
      (hsource : 0 ≤ total 1 (before ++ [⟨line, values⟩]) ∧
        total 1 (before ++ [⟨line, values⟩]) < limits.sources)
      (horigin : 0 ≤ total 2 (before ++ [⟨line, values⟩]) ∧
        0 ≤ total 3 (before ++ [⟨line, values⟩]))
      (hname : total 4 (before ++ [⟨line, values⟩]) < 0 ∨
        limits.names ≤ total 4 (before ++ [⟨line, values⟩])) :
      Fault limits before line segment
        (.nameOutOfRange (total 4 (before ++ [⟨line, values⟩])))

theorem decodeSegment_of_misspelt
    {column : Int} {running : Running} {error : Malformed} (h : Vlq.Misspelt segment error) :
    decodeSegment limits line column running segment = .error error := by
  unfold decodeSegment
  rw [Vlq.decode_eq_error_iff.mpr h]
  rfl

theorem decodeSegment_of_not_hasCount
    {column : Int} {running : Running} (hspells : Vlq.Spells segment values)
    (hcount : ¬HasCount values) :
    decodeSegment limits line column running segment =
      .error (.fieldCount segment values.length) := by
  unfold decodeSegment
  rw [Vlq.decode_eq_ok_iff.mpr hspells]
  simp only [bind, Except.bind]
  split
  · exact absurd (.inl rfl) hcount
  · exact absurd (.inr (.inl rfl)) hcount
  · exact absurd (.inr (.inr rfl)) hcount
  · rfl

theorem hasCount_iff :
    HasCount values ↔ (∃ a, values = [a]) ∨ (∃ a b c d, values = [a, b, c, d]) ∨
      ∃ a b c d e, values = [a, b, c, d, e] := by
  unfold HasCount
  rw [List.length_eq_one_iff]
  constructor
  · rintro (h | h | h)
    · exact .inl h
    · obtain ⟨a, rest, rfl⟩ := List.exists_cons_of_length_eq_add_one h
      obtain ⟨b, c, d, rfl⟩ := List.length_eq_three.mp (Nat.succ.inj h)
      exact .inr (.inl ⟨a, b, c, d, rfl⟩)
    · obtain ⟨a, rest, rfl⟩ := List.exists_cons_of_length_eq_add_one h
      obtain ⟨b, rest, rfl⟩ := List.exists_cons_of_length_eq_add_one (Nat.succ.inj h)
      obtain ⟨c, d, e, rfl⟩ := List.length_eq_three.mp (Nat.succ.inj (Nat.succ.inj h))
      exact .inr (.inr ⟨a, b, c, d, e, rfl⟩)
  · rintro (h | ⟨a, b, c, d, rfl⟩ | ⟨a, b, c, d, e, rfl⟩)
    · exact .inl h
    · exact .inr (.inl rfl)
    · exact .inr (.inr rfl)

/-- What a segment with the right number of integers gives: the first sum that leads out of
range, or its mapping. -/
theorem decodeSegment_eq (hspells : Vlq.Spells segment values) (hcount : HasCount values) :
    decodeSegment limits line (columnOn line before) (running before) segment =
      (let upTo := before ++ [⟨line, values⟩]
      if columnOn line upTo < 0 then .error (.negativeColumn line)
      else if 1 < values.length ∧ (total 1 upTo < 0 ∨ limits.sources ≤ total 1 upTo) then
        .error (.sourceOutOfRange (total 1 upTo))
      else if 1 < values.length ∧ (total 2 upTo < 0 ∨ total 3 upTo < 0) then
        .error .negativeOrigin
      else if 4 < values.length ∧ (total 4 upTo < 0 ∨ limits.names ≤ total 4 upTo) then
        .error (.nameOutOfRange (total 4 upTo))
      else .ok (mapping upTo ⟨line, values⟩, running upTo)) := by
  have hcolumn := columnOn_append_singleton before ⟨line, values⟩
  simp only at hcolumn
  unfold decodeSegment
  rw [Vlq.decode_eq_ok_iff.mpr hspells]
  obtain ⟨a, rfl⟩ | ⟨a, b, c, d, rfl⟩ | ⟨a, b, c, d, e, rfl⟩ := hasCount_iff.mp hcount
  · simp [bind, Except.bind, hcolumn, mapping, running]
  · by_cases hneg : columnOn line before + a < 0
    · simp [bind, Except.bind, hcolumn, hneg]
    by_cases hsource : total 1 before + b < 0 ∨ limits.sources ≤ total 1 before + b
    · simp [bind, Except.bind, hcolumn, hneg, decodeOrigin, running, hsource]
    by_cases horigin : total 2 before + c < 0 ∨ total 3 before + d < 0
    · simp [bind, Except.bind, hcolumn, hneg, decodeOrigin, running, hsource, horigin]
    · simp [bind, Except.bind, hcolumn, hneg, decodeOrigin, running, hsource, horigin, mapping,
        ofRunning]
  · by_cases hneg : columnOn line before + a < 0
    · simp [bind, Except.bind, hcolumn, hneg]
    by_cases hsource : total 1 before + b < 0 ∨ limits.sources ≤ total 1 before + b
    · simp [bind, Except.bind, hcolumn, hneg, decodeOrigin, running, hsource]
    by_cases horigin : total 2 before + c < 0 ∨ total 3 before + d < 0
    · simp [bind, Except.bind, hcolumn, hneg, decodeOrigin, running, hsource, horigin]
    by_cases hname : total 4 before + e < 0 ∨ limits.names ≤ total 4 before + e
    · simp [bind, Except.bind, hcolumn, hneg, decodeOrigin, running, hsource, horigin, hname]
    · simp [bind, Except.bind, hcolumn, hneg, decodeOrigin, running, hsource, horigin, hname,
        mapping, ofRunning]

theorem wellFormed_mapping_iff (hcount : HasCount values) :
    (mapping (before ++ [⟨line, values⟩]) ⟨line, values⟩).WellFormed limits ↔
      (let upTo := before ++ [⟨line, values⟩]
      0 ≤ columnOn line upTo ∧
        (1 < values.length → (0 ≤ total 1 upTo ∧ total 1 upTo < limits.sources) ∧
          0 ≤ total 2 upTo ∧ 0 ≤ total 3 upTo) ∧
        (4 < values.length → 0 ≤ total 4 upTo ∧ total 4 upTo < limits.names)) := by
  obtain ⟨a, rfl⟩ | ⟨a, b, c, d, rfl⟩ | ⟨a, b, c, d, e, rfl⟩ := hasCount_iff.mp hcount
  · simp [mapping, wellFormed_unmapped_iff]
  · simp [mapping, wellFormed_mapped_iff]
  · simp [mapping, wellFormed_mapped_iff, and_assoc]

/-- A segment is read as what the sums behind it are, exactly if they stay in range. -/
theorem decodeSegment_eq_ok_iff {result : Mapping × Running} :
    decodeSegment limits line (columnOn line before) (running before) segment = .ok result ↔
      ∃ values, Vlq.Spells segment values ∧ HasCount values ∧
        (mapping (before ++ [⟨line, values⟩]) ⟨line, values⟩).WellFormed limits ∧
        result = (mapping (before ++ [⟨line, values⟩]) ⟨line, values⟩,
          running (before ++ [⟨line, values⟩])) := by
  constructor
  · intro h
    obtain ⟨values, hspells⟩ | ⟨error, hmisspelt⟩ := Vlq.spells_or_misspelt segment
    · by_cases hcount : HasCount values
      · refine ⟨values, hspells, hcount, ?_⟩
        rw [wellFormed_mapping_iff hcount]
        rw [decodeSegment_eq hspells hcount] at h
        simp only at h
        split_ifs at h with hcolumn hsource horigin hname
        refine ⟨⟨by omega, by omega, by omega⟩, (Except.ok.inj h).symm⟩
      · rw [decodeSegment_of_not_hasCount hspells hcount] at h
        simp at h
    · rw [decodeSegment_of_misspelt hmisspelt] at h
      simp at h
  · rintro ⟨values, hspells, hcount, hwf, rfl⟩
    obtain ⟨hcolumn, horigin, hname⟩ := (wellFormed_mapping_iff hcount).mp hwf
    rw [decodeSegment_eq hspells hcount]
    simp only
    rw [if_neg (by omega), if_neg (by omega), if_neg (by omega), if_neg (by omega)]

/-- A segment is refused exactly for what is wrong with it. -/
theorem decodeSegment_eq_error_iff {error : Malformed} :
    decodeSegment limits line (columnOn line before) (running before) segment = .error error ↔
      Fault limits before line segment error := by
  constructor
  · intro h
    obtain ⟨values, hspells⟩ | ⟨error', hmisspelt⟩ := Vlq.spells_or_misspelt segment
    · by_cases hcount : HasCount values
      · rw [decodeSegment_eq hspells hcount] at h
        simp only at h
        split_ifs at h with hcolumn hsource horigin hname
        · rw [← Except.error.inj h]
          exact .column hspells hcount hcolumn
        · rw [← Except.error.inj h]
          exact .source hspells hcount (by omega) hsource.1 hsource.2
        · rw [← Except.error.inj h]
          exact .origin hspells hcount (by omega) horigin.1 (by omega) horigin.2
        · rw [← Except.error.inj h]
          exact .name hspells hcount (by omega) hname.1 (by omega) (by omega) hname.2
      · rw [decodeSegment_of_not_hasCount hspells hcount] at h
        rw [← Except.error.inj h]
        exact .count hspells hcount
    · rw [decodeSegment_of_misspelt hmisspelt] at h
      rw [← Except.error.inj h]
      exact .spelling hmisspelt
  · intro h
    cases h with
    | spelling hmisspelt => exact decodeSegment_of_misspelt hmisspelt
    | count hspells hcount => exact decodeSegment_of_not_hasCount hspells hcount
    | column hspells hcount hcolumn =>
        rw [decodeSegment_eq hspells hcount]
        simp only
        rw [if_pos hcolumn]
    | source hspells hcount hcolumn hlength hsource =>
        rw [decodeSegment_eq hspells hcount]
        simp only
        rw [if_neg (by omega), if_pos ⟨hlength, hsource⟩]
    | origin hspells hcount hcolumn hlength hsource horigin =>
        rw [decodeSegment_eq hspells hcount]
        simp only
        rw [if_neg (by omega), if_neg (by omega), if_pos ⟨hlength, horigin⟩]
    | name hspells hcount hcolumn hlength hsource horigin hname =>
        rw [decodeSegment_eq hspells hcount]
        simp only
        rw [if_neg (by omega), if_neg (by omega), if_neg (by omega), if_pos ⟨hlength, hname⟩]

end Segment

/-! ## All segments -/

open Fields

/-- Whether segments that come behind others have as many integers as mappings have fields,
and sums that stay in range. -/
structure Acceptable (limits : Limits) (before segments : List Fields) : Prop where
  count : ∀ segment ∈ segments, HasCount segment.values
  wellFormed : ∀ mapping ∈ mappings before segments, mapping.WellFormed limits

theorem acceptable_nil (limits : Limits) (before : List Fields) : Acceptable limits before [] where
  count := by simp
  wellFormed := by simp

theorem acceptable_cons_iff
    {limits : Limits} {before : List Fields} {segment : Fields} {rest : List Fields} :
    Acceptable limits before (segment :: rest) ↔
      HasCount segment.values ∧
        (mapping (before ++ [segment]) segment).WellFormed limits ∧
        Acceptable limits (before ++ [segment]) rest := by
  constructor
  · rintro ⟨hcount, hwf⟩
    rw [mappings_cons] at hwf
    exact ⟨hcount segment List.mem_cons_self, hwf _ List.mem_cons_self,
      fun other hother => hcount other (List.mem_cons_of_mem segment hother),
      fun other hother => hwf other (List.mem_cons_of_mem _ hother)⟩
  · rintro ⟨hcount, hwf, hrest⟩
    constructor
    · simpa [hcount] using hrest.count
    · simpa [hwf] using hrest.wellFormed

/-- What segments give that come behind others: their mappings, up to the first fault. -/
inductive Decoded (limits : Limits) :
    List Fields → List (Nat × Text) → Except Malformed (List Mapping) → Prop
  | nil {before : List Fields} : Decoded limits before [] (.ok [])
  | cons {before : List Fields} {line : Nat} {segment : Text} {values : List Int}
      {rest : List (Nat × Text)} {result : Except Malformed (List Mapping)}
      (hspells : Vlq.Spells segment values) (hcount : HasCount values)
      (hwf : (mapping (before ++ [⟨line, values⟩]) ⟨line, values⟩).WellFormed limits)
      (hrest : Decoded limits (before ++ [⟨line, values⟩]) rest result) :
      Decoded limits before ((line, segment) :: rest)
        (result.map (mapping (before ++ [⟨line, values⟩]) ⟨line, values⟩ :: ·))
  | fault {before : List Fields} {line : Nat} {segment : Text} {rest : List (Nat × Text)}
      {error : Malformed} (hfault : Fault limits before line segment error) :
      Decoded limits before ((line, segment) :: rest) (.error error)

namespace Decoded

variable {limits : Limits} {before : List Fields} {segments : List (Nat × Text)}
  {result result' : Except Malformed (List Mapping)}

theorem unique
    (h : Decoded limits before segments result) (h' : Decoded limits before segments result') :
    result = result' := by
  induction h generalizing result' with
  | nil =>
      cases h' with
      | nil => rfl
  | cons hspells hcount hwf hrest ih =>
      cases h' with
      | cons hspells' hcount' hwf' hrest' =>
          obtain rfl := hspells.unique hspells'
          rw [ih hrest']
      | fault hfault =>
          have hok := decodeSegment_eq_ok_iff.mpr ⟨_, hspells, hcount, hwf, rfl⟩
          rw [decodeSegment_eq_error_iff.mpr hfault] at hok
          simp at hok
  | fault hfault =>
      have herror := decodeSegment_eq_error_iff.mpr hfault
      cases h' with
      | cons hspells hcount hwf =>
          rw [decodeSegment_eq_ok_iff.mpr ⟨_, hspells, hcount, hwf, rfl⟩] at herror
          simp at herror
      | fault hfault' =>
          rw [decodeSegment_eq_error_iff.mpr hfault'] at herror
          rw [Except.error.inj herror]

theorem of_acceptable
    {read : List Fields} (hreads : List.Forall₂ Reads segments read)
    (hread : Acceptable limits before read) :
    Decoded limits before segments (.ok (mappings before read)) := by
  induction hreads generalizing before with
  | nil => exact .nil
  | @cons segment fields segments read hsegment hrest ih =>
      obtain ⟨hcount, hwf, hread⟩ := acceptable_cons_iff.mp hread
      obtain ⟨line, text⟩ := segment
      obtain ⟨line', values⟩ := fields
      obtain ⟨rfl, hspells⟩ := hsegment
      rw [mappings_cons]
      exact .cons hspells hcount hwf (ih hread)

theorem ok_iff {found : List Mapping} :
    Decoded limits before segments (.ok found) ↔
      ∃ read, List.Forall₂ Reads segments read ∧ Acceptable limits before read ∧
        found = mappings before read := by
  constructor
  · intro h
    generalize hresult : (Except.ok found : Except Malformed (List Mapping)) = result at h
    induction h generalizing found with
    | @nil before =>
        obtain rfl := Except.ok.inj hresult
        exact ⟨[], .nil, acceptable_nil limits before, rfl⟩
    | @cons before line segment values rest result hspells hcount hwf hrest ih =>
        cases result with
        | error error => simp [Except.map] at hresult
        | ok others =>
            obtain rfl := Except.ok.inj hresult
            obtain ⟨read, hreads, hread, rfl⟩ := ih rfl
            exact ⟨⟨line, values⟩ :: read, .cons ⟨rfl, hspells⟩ hreads,
              acceptable_cons_iff.mpr ⟨hcount, hwf, hread⟩, (mappings_cons _ _ _).symm⟩
    | fault => simp at hresult
  · rintro ⟨read, hreads, hread, rfl⟩
    exact of_acceptable hreads hread

theorem error_iff {error : Malformed} :
    Decoded limits before segments (.error error) ↔
      ∃ done read line segment behind, segments = done ++ (line, segment) :: behind ∧
        List.Forall₂ Reads done read ∧ Acceptable limits before read ∧
        Fault limits (before ++ read) line segment error := by
  constructor
  · intro h
    generalize hresult : (Except.error error : Except Malformed (List Mapping)) = result at h
    induction h with
    | nil => simp at hresult
    | @cons before line segment values rest result hspells hcount hwf hrest ih =>
        cases result with
        | ok others => simp [Except.map] at hresult
        | error error' =>
            obtain rfl := Except.error.inj hresult
            obtain ⟨done, read, line', segment', behind, rfl, hreads, hread, hfault⟩ := ih rfl
            refine ⟨(line, segment) :: done, ⟨line, values⟩ :: read, line', segment', behind, rfl,
              .cons ⟨rfl, hspells⟩ hreads, acceptable_cons_iff.mpr ⟨hcount, hwf, hread⟩, ?_⟩
            rwa [List.append_assoc] at hfault
    | @fault before line segment rest error' hfault =>
        obtain rfl := Except.error.inj hresult
        refine ⟨[], [], line, segment, rest, rfl, .nil, acceptable_nil limits before, ?_⟩
        rwa [List.append_nil]
  · rintro ⟨done, read, line, segment, behind, rfl, hreads, hread, hfault⟩
    induction hreads generalizing before with
    | nil =>
        rw [List.append_nil] at hfault
        exact .fault hfault
    | @cons first fields done read hfirst hrest ih =>
        obtain ⟨hcount, hwf, hread⟩ := acceptable_cons_iff.mp hread
        obtain ⟨line', text⟩ := first
        obtain ⟨line'', values⟩ := fields
        obtain ⟨rfl, hspells⟩ := hfirst
        rw [List.append_cons] at hfault
        exact .cons hspells hcount hwf (ih hread hfault)

end Decoded

section Lines

variable {limits : Limits} {before : List Fields}

/-- The segments of a line are read one by one, up to the first fault. -/
theorem decoded_decodeLine
    (limits : Limits) (before : List Fields) (line : Nat) (group : List Text)
    (later : List (Nat × Text)) :
    match decodeLine limits line (columnOn line before) (running before) group with
    | .error error =>
        Decoded limits before
          ((group.filter (· ≠ [])).map (fun segment => (line, segment)) ++ later) (.error error)
    | .ok (found, moved) =>
        ∃ read, moved = running (before ++ read) ∧ (∀ fields ∈ read, fields.line = line) ∧
          ∀ result, Decoded limits (before ++ read) later result →
            Decoded limits before
              ((group.filter (· ≠ [])).map (fun segment => (line, segment)) ++ later)
              (result.map (found ++ ·)) := by
  induction group generalizing before with
  | nil =>
      refine ⟨[], by simp, by simp, ?_⟩
      intro result hresult
      cases result <;> simpa [Except.map] using hresult
  | cons segment group ih =>
      by_cases hempty : segment = []
      · simpa [decodeLine, hempty] using ih before
      cases hsegment : decodeSegment limits line (columnOn line before) (running before) segment with
      | error error =>
          simp only [decodeLine, if_neg hempty, hsegment]
          rw [List.filter_cons_of_pos (by simpa using hempty)]
          exact .fault (decodeSegment_eq_error_iff.mp hsegment)
      | ok first =>
          obtain ⟨values, hspells, hcount, hwf, rfl⟩ := decodeSegment_eq_ok_iff.mp hsegment
          have hrest := ih (before ++ [⟨line, values⟩])
          have hcolumn : (mapping (before ++ [⟨line, values⟩]) ⟨line, values⟩).generated.column =
              columnOn line (before ++ [⟨line, values⟩]) := rfl
          simp only [decodeLine, if_neg hempty, hsegment, hcolumn]
          rw [List.filter_cons_of_pos (by simpa using hempty)]
          cases hgroup : decodeLine limits line (columnOn line (before ++ [⟨line, values⟩]))
              (running (before ++ [⟨line, values⟩])) group with
          | error error =>
              rw [hgroup] at hrest
              exact .cons hspells hcount hwf hrest
          | ok found =>
              obtain ⟨others, moved⟩ := found
              rw [hgroup] at hrest
              obtain ⟨read, rfl, hlines, hlater⟩ := hrest
              refine ⟨⟨line, values⟩ :: read, by simp, by simpa using hlines, ?_⟩
              intro result hresult
              rw [List.append_cons] at hresult
              have hcons := Decoded.cons hspells hcount hwf (hlater result hresult)
              cases result <;> exact hcons

/-- The lines of a written list are read one behind the other, up to the first fault. -/
theorem decoded_decodeLines
    (line : Nat) (groups : List Text) (hbefore : ∀ fields ∈ before, fields.line < line) :
    Decoded limits before (segmentsFrom line groups)
      (decodeLines limits line (running before) groups) := by
  induction groups generalizing before line with
  | nil => exact .nil
  | cons group groups ih =>
      have hgroup := decoded_decodeLine limits before line (Text.fields ',' group)
        (segmentsFrom (line + 1) groups)
      rw [columnOn_of_forall_lt hbefore] at hgroup
      unfold segmentsFrom at hgroup ⊢
      rw [List.zipIdx_cons, List.flatMap_cons, decodeLines]
      cases hline : decodeLine limits line 0 (running before) (Text.fields ',' group) with
      | error error =>
          rw [hline] at hgroup
          exact hgroup
      | ok found =>
          obtain ⟨found, moved⟩ := found
          rw [hline] at hgroup
          obtain ⟨read, rfl, hlines, hlater⟩ := hgroup
          have hread : ∀ fields ∈ before ++ read, fields.line < line + 1 := by
            intro fields hfields
            rcases List.mem_append.mp hfields with hfields | hfields
            · exact (hbefore fields hfields).trans (Nat.lt_succ_self line)
            · exact (hlines fields hfields).trans_lt (Nat.lt_succ_self line)
          have hrest := hlater _ (ih (line + 1) hread)
          simp only
          cases hothers : decodeLines limits (line + 1) (running (before ++ read)) groups with
          | error error =>
              rw [hothers] at hrest
              exact hrest
          | ok others =>
              rw [hothers] at hrest
              exact hrest

end Lines

theorem decoded_decode (limits : Limits) (written : Text) :
    Decoded limits [] (writtenSegments written) (decode limits written) :=
  decoded_decodeLines 0 _ (by simp)

theorem decode_eq_iff_decoded
    {limits : Limits} {written : Text} {result : Except Malformed (List Mapping)} :
    decode limits written = result ↔ Decoded limits [] (writtenSegments written) result :=
  ⟨fun h => h ▸ decoded_decode limits written, fun h => (decoded_decode limits written).unique h⟩

/-- Exactly the mappings that a written list describes are read from it. -/
theorem decode_eq_ok_iff_acceptable {limits : Limits} {written : Text} {found : List Mapping} :
    decode limits written = .ok found ↔
      ∃ read, List.Forall₂ Reads (writtenSegments written) read ∧ Acceptable limits [] read ∧
        found = mappings [] read := by
  rw [← Decoded.ok_iff]
  exact decode_eq_iff_decoded

/-- The first fault of a written list: what is wrong with a segment, none before which has
a fault. -/
def FirstFault (limits : Limits) (written : Text) (error : Malformed) : Prop :=
  ∃ done read line segment behind, writtenSegments written = done ++ (line, segment) :: behind ∧
    List.Forall₂ Reads done read ∧ Acceptable limits [] read ∧ Fault limits read line segment error

theorem decode_eq_error_iff_firstFault {limits : Limits} {written : Text} {error : Malformed} :
    decode limits written = .error error ↔ FirstFault limits written error := by
  have hfault : Decoded limits [] (writtenSegments written) (.error error) ↔
      FirstFault limits written error := Decoded.error_iff
  rw [← hfault]
  exact decode_eq_iff_decoded

theorem wellFormed_of_decode
    {limits : Limits} {written : Text} {found : List Mapping}
    (h : decode limits written = .ok found) :
    ∀ mapping ∈ found, mapping.WellFormed limits := by
  obtain ⟨read, -, hread, rfl⟩ := decode_eq_ok_iff_acceptable.mp h
  exact hread.wellFormed

end Mapping

end UrlRebase
