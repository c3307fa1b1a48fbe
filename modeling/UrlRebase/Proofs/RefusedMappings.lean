import UrlRebase.Failure
import UrlRebase.Proofs.AnchoredMap
import UrlRebase.Proofs.RestoredMappings

/-!
# Written lists that are read or refused

A written list that describes mappings is read as these, and any other is refused for its
first fault.  The fault is told to be one of the map, unless it is an index out of range that
has too many digits to be written.  Since no index out of range is read, the origin of a
position never leads to a source that the map does not list.
-/

namespace UrlRebase

theorem Text.isTooLong_iff {n : Int} : isTooLong n = true ↔ 10 ^ maxDigits ≤ n.natAbs := by
  have hshort : (Nat.toDigits 10 n.natAbs).length ≤ maxDigits ↔ n.natAbs < 10 ^ maxDigits :=
    Nat.length_toDigits_le_iff (by decide) (by decide)
  have hlength : (ofNat n.natAbs).length = (Nat.toDigits 10 n.natAbs).length :=
    List.length_map _
  rw [isTooLong, hlength, decide_eq_true_iff, ← Nat.not_le, hshort, Nat.not_lt]

namespace Malformed

/-- Whether an error tells an index with more digits than an integer is written with. -/
def TellsLongIndex (error : Malformed) : Prop :=
  ∃ index : Int, (error = .sourceOutOfRange index ∨ error = .nameOutOfRange index) ∧
    10 ^ Text.maxDigits ≤ index.natAbs

theorem hasLongIndex_iff {error : Malformed} :
    error.hasLongIndex = true ↔ error.TellsLongIndex := by
  cases error <;> simp [hasLongIndex, TellsLongIndex, Text.isTooLong_iff]

end Malformed

namespace Failure

theorem ofMalformed_of_tellsLongIndex {error : Malformed} (h : error.TellsLongIndex) :
    ofMalformed error = .longNumber := by
  rw [ofMalformed, SourceMap.LoadError.ofMalformed, if_pos (Malformed.hasLongIndex_iff.mpr h)]
  rfl

theorem ofMalformed_of_not_tellsLongIndex {error : Malformed} (h : ¬error.TellsLongIndex) :
    ofMalformed error = .malformedMap error := by
  rw [ofMalformed, SourceMap.LoadError.ofMalformed,
    if_neg (mt Malformed.hasLongIndex_iff.mp h)]
  rfl

end Failure

namespace Lineage

/-- In a text whose map was read, every position has an origin, and a source that it gives
the index of is the one that the map lists under this index. -/
theorem Sound.exists_origin {lineage : Lineage} (hlineage : lineage.Sound) (position : Position) :
    ∃ origin, lineage.origin position = .ok origin ∧
      ∀ map index, lineage.map = some map → origin.sourceIndex = some index →
        0 ≤ index ∧ map.sources[index.toNat]? = some origin.source := by
  rcases hlineage.origin_cases position with
    horigin | ⟨map, mapping, index, source, hmap, -, -, hnonneg, hsource, horigin⟩
  · refine ⟨_, horigin, ?_⟩
    intro map index _ hindex
    simp [here] at hindex
  · refine ⟨_, horigin, ?_⟩
    intro map' index' hmap' hindex'
    obtain rfl : map = map' := Option.some.inj (hmap.symm.trans hmap')
    obtain rfl : index = index' := Option.some.inj hindex'
    rw [SourceMap.entry?, if_pos hnonneg] at hsource
    exact ⟨hnonneg, hsource⟩

end Lineage

namespace Mapping

/-- Whether segments are what a written list spells, as many integers each as a mapping has
fields, with sums that stay in range. -/
def Describes (limits : Limits) (written : Text) (read : List Fields) : Prop :=
  List.Forall₂ Reads (writtenSegments written) read ∧ Acceptable limits [] read

theorem exists_firstFault
    {limits : Limits} {written : Text} (h : ¬∃ read, Describes limits written read) :
    ∃ error, FirstFault limits written error ∧ decode limits written = .error error := by
  cases hdecode : decode limits written with
  | ok found =>
      obtain ⟨read, hreads, hread, -⟩ := decode_eq_ok_iff_acceptable.mp hdecode
      exact absurd ⟨read, hreads, hread⟩ h
  | error error => exact ⟨error, decode_eq_error_iff_firstFault.mp hdecode, rfl⟩

/-- A written list is read exactly if it describes mappings, and then as these.  Any other is
refused for its first fault, as malformed unless the fault tells an index that has too many
digits.  Behind a map that was read, every position has an origin, in a source that the map
lists if it comes from one. -/
theorem decode_iff_describes (limits : Limits) (written : Text) :
    (∀ found : List Mapping, decode limits written = .ok found ↔
      ∃ read, Describes limits written read ∧ found = Fields.mappings [] read) ∧
    ((¬∃ read, Describes limits written read) →
      ∃ error, FirstFault limits written error ∧
        (¬error.TellsLongIndex →
          (decode limits written).mapError Failure.ofMalformed = .error (.malformedMap error)) ∧
        (error.TellsLongIndex →
          (decode limits written).mapError Failure.ofMalformed = .error .longNumber)) ∧
    ∀ (map : SourceMap) (source : Text) (position : Position), map.Accepted →
      ∃ origin, (⟨some map, source⟩ : Lineage).origin position = .ok origin ∧
        ∀ index, origin.sourceIndex = some index →
          0 ≤ index ∧ map.sources[index.toNat]? = some origin.source := by
  refine ⟨?_, ?_, ?_⟩
  · intro found
    simp only [decode_eq_ok_iff_acceptable, Describes, and_assoc]
  · intro hnone
    obtain ⟨error, hfault, hdecode⟩ := exists_firstFault hnone
    refine ⟨error, hfault, ?_, ?_⟩
    · intro hshort
      rw [hdecode, Except.mapError, Failure.ofMalformed_of_not_tellsLongIndex hshort]
    · intro hlong
      rw [hdecode, Except.mapError, Failure.ofMalformed_of_tellsLongIndex hlong]
  · intro map source position hmap
    have hsound : Lineage.Sound ⟨some map, source⟩ := by
      intro map' hmap'
      rwa [← Option.some.inj hmap']
    obtain ⟨origin, horigin, hindex⟩ := hsound.exists_origin position
    exact ⟨origin, horigin, fun index => hindex map index rfl⟩

theorem decode_of_listed_source :
    (∃ read, Describes ⟨1, 0⟩ "AAAA,KAEC;;CADA".text read ∧
      [⟨⟨0, 0⟩, some 0, some 0, some 0, none⟩, ⟨⟨0, 5⟩, some 0, some 2, some 1, none⟩,
        ⟨⟨2, 1⟩, some 0, some 1, some 1, none⟩] = Fields.mappings [] read) ∧
    (∃ error, FirstFault ⟨1, 0⟩ "AAAA,KCEC".text error ∧
      (¬error.TellsLongIndex → (decode ⟨1, 0⟩ "AAAA,KCEC".text).mapError Failure.ofMalformed =
        .error (.malformedMap error)) ∧
      (error.TellsLongIndex → (decode ⟨1, 0⟩ "AAAA,KCEC".text).mapError Failure.ofMalformed =
        .error .longNumber)) ∧
    ∃ map : SourceMap, map.Accepted ∧
      ∃ origin, (⟨some map, "b.css".text⟩ : Lineage).origin ⟨2, 9⟩ = .ok origin ∧
        ∀ index, origin.sourceIndex = some index →
          0 ≤ index ∧ map.sources[index.toNat]? = some origin.source := by
  have hread : decode ⟨1, 0⟩ "AAAA,KAEC;;CADA".text =
      .ok [⟨⟨0, 0⟩, some 0, some 0, some 0, none⟩, ⟨⟨0, 5⟩, some 0, some 2, some 1, none⟩,
        ⟨⟨2, 1⟩, some 0, some 1, some 1, none⟩] := by
    cbv
  have hrefused : decode ⟨1, 0⟩ "AAAA,KCEC".text = .error (.sourceOutOfRange 1) := by cbv
  have hnone : ¬∃ read, Describes ⟨1, 0⟩ "AAAA,KCEC".text read := by
    rintro ⟨read, hreads⟩
    have hread := ((decode_iff_describes ⟨1, 0⟩ "AAAA,KCEC".text).1 _).mpr ⟨read, hreads, rfl⟩
    rw [hrefused] at hread
    simp at hread
  have haccepted := @SourceMap.accepted_of_decode ["a.css".text] _ _ hread
  exact ⟨((decode_iff_describes ⟨1, 0⟩ "AAAA,KAEC;;CADA".text).1 _).mp hread,
    (decode_iff_describes ⟨1, 0⟩ "AAAA,KCEC".text).2.1 hnone, _, haccepted,
    (decode_iff_describes ⟨1, 0⟩ []).2.2 _ "b.css".text ⟨2, 9⟩ haccepted⟩

/-! ## Indices that are too long -/

theorem writtenSegments_encode {values : List Int} (hvalues : values ≠ []) :
    writtenSegments (Vlq.encode values) = [(0, Vlq.encode values)] := by
  have hsingle {separator : CodePoint} (hseparator : Vlq.digit? separator = none) :
      Text.fields separator (Vlq.encode values) = [Vlq.encode values] := by
    have hpart : ∀ part ∈ [Vlq.encode values], separator ∉ part := by
      simpa using Vlq.notMem_encode hseparator values
    have hfields := Text.fields_joined hpart (by simp)
    rwa [Text.joined, List.intercalate_singleton] at hfields
  have hcomma : Vlq.digit? (CodePoint.char ',') = none := by decide
  rw [writtenSegments, hsingle (by decide)]
  simp [segmentsFrom, hsingle hcomma, Vlq.encode_ne_nil hvalues]

/-- A list of one segment that leads to a source out of range is refused for this. -/
theorem firstFault_of_source
    {limits : Limits} {index : Int} (hindex : index < 0 ∨ limits.sources ≤ index) :
    FirstFault limits (Vlq.encode [0, index, 0, 0]) (.sourceOutOfRange index) := by
  have htotal : Fields.total 1 ([] ++ [⟨0, [0, index, 0, 0]⟩]) = index := by
    simp [Fields.total]
  refine ⟨[], [], 0, Vlq.encode [0, index, 0, 0], [], writtenSegments_encode (by simp), .nil,
    acceptable_nil limits [], ?_⟩
  have hfault : Fault limits [] 0 (Vlq.encode [0, index, 0, 0])
      (.sourceOutOfRange (Fields.total 1 ([] ++ [⟨0, [0, index, 0, 0]⟩]))) := by
    refine .source (Vlq.spells_encode _) (.inr (.inl rfl)) ?_ (by simp) (by rwa [htotal])
    simp [Fields.columnOn, Fields.total]
  rwa [htotal] at hfault

/-- A source out of range is not told to be one of the map if its index is too long. -/
theorem decode_of_long_source
    {limits : Limits} {index : Int} (hindex : index < 0 ∨ limits.sources ≤ index)
    (hlong : 10 ^ Text.maxDigits ≤ index.natAbs) :
    (decode limits (Vlq.encode [0, index, 0, 0])).mapError Failure.ofMalformed =
      .error .longNumber := by
  rw [decode_eq_error_iff_firstFault.mpr (firstFault_of_source hindex), Except.mapError,
    Failure.ofMalformed_of_tellsLongIndex ⟨index, .inl rfl, hlong⟩]

theorem refused_of_long_source :
    ∃ written, written = Vlq.encode [0, 10 ^ Text.maxDigits, 0, 0] ∧
      (¬∃ read, Describes ⟨1, 0⟩ written read) ∧
      (decode ⟨1, 0⟩ written).mapError Failure.ofMalformed = .error .longNumber ∧
      ∀ error, (decode ⟨1, 0⟩ written).mapError Failure.ofMalformed ≠
        .error (.malformedMap error) := by
  -- The power is kept as it is: its digits are far too many to be computed.
  have hcast (digits : Nat) : (10 ^ digits : Int) = ((10 ^ digits : Nat) : Int) := by norm_cast
  have hrange : (10 ^ Text.maxDigits : Int) < 0 ∨
      ((⟨1, 0⟩ : Limits).sources : Int) ≤ 10 ^ Text.maxDigits := by
    rw [hcast]
    exact .inr (Int.ofNat_le.mpr (Nat.one_le_pow _ _ (by decide)))
  have hlong : 10 ^ Text.maxDigits ≤ (10 ^ Text.maxDigits : Int).natAbs := by
    rw [hcast, Int.natAbs_natCast]
  have hrefused := decode_of_long_source hrange hlong
  refine ⟨_, rfl, ?_, hrefused, ?_⟩
  · rintro ⟨read, hreads, hread⟩
    have hok := decode_eq_ok_iff_acceptable.mpr ⟨read, hreads, hread, rfl⟩
    rw [decode_eq_error_iff_firstFault.mpr (firstFault_of_source hrange)] at hok
    simp at hok
  · intro error herror
    rw [hrefused] at herror
    simp at herror

end Mapping

end UrlRebase
