import UrlRebase.Proofs.AcceptedMap
import UrlRebase.Proofs.ReadableValues
import UrlRebase.Proofs.RestoredMappings

/-!
# Maps restored from what was printed

A map whose mappings can be written is printed as a text.  The text is read again exactly if
the values that the map carries along are within the limits of the reader of JSON: then its
sources and names come back with their halves paired, and its mappings come back in order.  A
map that was read from a text is within the limits, and so is one that was read from a value
within them.
-/

namespace UrlRebase

namespace SourceMap

/-! ## Members of a printed map -/

/-- A value that counts as true. -/
def present? (value : Json) : Option Json :=
  if value.truthy then some value else none

theorem withMappings_eq (map : SourceMap) (written : Text) :
    map.withMappings written = .object (fields (present? map.file) (present? map.root)
      (map.sources.map .string) map.names written map.contents) := by
  have hfield (key : String) (value : Json) :
      (if value.truthy then [(key.text, value)] else []) =
        ((present? value).map fun value => (key.text, value)).toList := by
    unfold present?
    split <;> rfl
  simp only [withMappings, fields, hfield]

theorem ofMembers_fields
    {file root : Option Json} {sources names : List Json} {written : Text}
    {contents : Option (List Json)} :
    Json.ofMembers (fields file root sources names written contents) =
      fields file root sources names written contents := by
  cases file <;> cases root <;> cases contents <;> rfl

end SourceMap

/-! ## Reading a printed map -/

namespace Json

variable {room : Nat}

/-- Whether the value of a field, if it has one, is printed as a text that is read. -/
def FieldReadsAs (room : Nat) (value read : Option Json) : Prop :=
  Option.Rel (fun value read => ReadsAs room (print value) read) value read

theorem exists_fieldReadsAs
    {value : Option Json} (hvalue : ∀ json, value = some json → json.Fits room) :
    ∃ read, FieldReadsAs room value read := by
  cases value with
  | none => exact ⟨none, .none⟩
  | some json =>
      obtain ⟨read, hread⟩ := (hvalue json rfl).exists_readsAs
      exact ⟨some read, .some hread⟩

theorem exists_contentsReadsAs
    {contents : Option (List Json)}
    (hcontents : ∀ items, contents = some items → (Json.array items).Fits room) :
    ∃ reads, FieldReadsAs room (contents.map .array) (Option.map .array reads) := by
  cases contents with
  | none => exact ⟨none, .none⟩
  | some items =>
      obtain ⟨reads, hreads⟩ := (hcontents items rfl).exists_readsAs_array
      exact ⟨some reads, .some hreads⟩

theorem FieldReadsAs.forall₂
    {value read : Option Json} (h : FieldReadsAs room value read) {key : Text}
    (hkey : Text.paired key = key) :
    List.Forall₂ (MemberReadsAs room) (value.map fun value => (key, value)).toList
      (read.map fun read => (key, read)).toList := by
  cases h with
  | none => exact .nil
  | some hread => exact .cons ⟨hkey.symm, hread⟩ .nil

theorem readsAs_texts (room : Nat) (texts : List Text) :
    ReadsAs (room + 1) (print (.array (texts.map .string)))
      (.array (texts.map fun text => .string (Text.paired text))) := by
  apply ReadsAs.array
  rw [List.forall₂_map_left_iff, List.forall₂_map_right_iff, List.forall₂_same]
  exact fun text _ => readsAs_string room text

theorem readsAs_fields
    {file file' root root' : Option Json} {sources sources' names names' : List Json}
    {written : Text} {contents contents' : Option (List Json)}
    (hfile : FieldReadsAs room file file') (hroot : FieldReadsAs room root root')
    (hsources : ReadsAs room (print (.array sources)) (.array sources'))
    (hnames : ReadsAs room (print (.array names)) (.array names'))
    (hwritten : Text.paired written = written)
    (hcontents : FieldReadsAs room (contents.map .array) (contents'.map .array)) :
    ReadsAs (room + 1) (print (.object (SourceMap.fields file root sources names written contents)))
      (.object (SourceMap.fields file' root' sources' names' written contents')) := by
  have hversion : ReadsAs room (print (.int 3)) (.int 3) := readsAs_int (by decide) room
  have hmappings : ReadsAs room (print (.string written)) (.string written) := by
    have hstring := readsAs_string room written
    rwa [hwritten] at hstring
  have hlast := hcontents.forall₂ (show Text.paired "sourcesContent".text = _ from rfl)
  rw [Option.map_map, Option.map_map] at hlast
  have hmembers : List.Forall₂ (MemberReadsAs room)
      (SourceMap.fields file root sources names written contents)
      (SourceMap.fields file' root' sources' names' written contents') := by
    refine List.rel_append (List.rel_append (List.rel_append (List.rel_append ?_ ?_) ?_) ?_) hlast
    · exact .cons ⟨rfl, hversion⟩ .nil
    · exact hfile.forall₂ rfl
    · exact hroot.forall₂ rfl
    · exact .cons ⟨rfl, hsources⟩ (.cons ⟨rfl, hnames⟩ (.cons ⟨rfl, hmappings⟩ .nil))
  have hobject := ReadsAs.object hmembers
  rwa [SourceMap.ofMembers_fields] at hobject

end Json

namespace SourceMap

/-- Whether the values that a map carries along are within the limits of the reader of JSON. -/
structure Fits (map : SourceMap) : Prop where
  file : map.file.Fits (Json.maxDepth - 1)
  root : map.root.Fits (Json.maxDepth - 1)
  contents : ∀ items, map.contents = some items → (Json.array items).Fits (Json.maxDepth - 1)

theorem present?_fits {value : Json} {room : Nat} (h : value.Fits room) :
    ∀ json, present? value = some json → json.Fits room := by
  intro json hjson
  unfold present? at hjson
  split at hjson
  · rwa [← Option.some.inj hjson]
  · simp at hjson

end SourceMap

theorem Vlq.digit?_half (offset : Fin 0x800) : digit? (.half offset) = none := by
  have hlarge : ∀ c : Char, c.toNat < 0xD800 → ¬CodePoint.half offset ≤ CodePoint.char c := by
    intro c hc hle
    have hnat : 0xD800 + offset.val ≤ c.toNat := hle
    omega
  unfold digit?
  rw [if_neg fun h => hlarge 'Z' (by decide) h.2, if_neg fun h => hlarge 'z' (by decide) h.2,
    if_neg fun h => hlarge '9' (by decide) h.2, if_neg (by simp), if_neg (by simp)]

theorem Mapping.paired_encode
    {limits : Limits} {mappings : List Mapping}
    (hwf : ∀ mapping ∈ mappings, mapping.WellFormed limits) {written : Text}
    (hwritten : encode mappings = .ok written) : Text.paired written = written :=
  Text.paired_of_no_half fun offset =>
    notMem_encode hwf hwritten (Vlq.digit?_half offset) (by simp) (by simp)

namespace SourceMap

theorem fits_lookup
    {room : Nat} {members : List (Text × Json)}
    (hmembers : ∀ member ∈ members, member.2.Fits room) (key : Text) :
    ((members.lookup key).getD .null).Fits room := by
  cases hlookup : members.lookup key with
  | none => exact .null
  | some value =>
      obtain ⟨before, behind, rfl, -⟩ := List.lookup_eq_some_iff.mp hlookup
      exact hmembers (key, value) (by simp)

theorem fits_of_present?
    {value : Json} {room : Nat} (h : ((present? value).getD .null).Fits (room + 1)) :
    value.Fits (room + 1) := by
  unfold present? at h
  split at h
  · exact h
  · rename_i htruthy
    cases value with
    | null => exact .null
    | bool value => exact .bool
    | int n =>
        obtain rfl : n = 0 := by simpa [Json.truthy] using htruthy
        exact .int (by decide)
    | double value => exact .double
    | string value => exact .string
    | array items =>
        obtain rfl : items = [] := by simpa [Json.truthy] using htruthy
        exact .array (by simp)
    | object members =>
        obtain rfl : members = [] := by simpa [Json.truthy] using htruthy
        exact .object (by simp)

theorem fits_of_withMappings
    {map : SourceMap} {written : Text} (h : (map.withMappings written).Fits Json.maxDepth) :
    map.Fits := by
  rw [withMappings_eq] at h
  obtain ⟨-, -, hfile, hroot, -, -, -, hcontents⟩ := @lookup_fields (present? map.file)
    (present? map.root) (map.sources.map .string) map.names written map.contents
  cases h with
  | object hmembers =>
      refine ⟨fits_of_present? ?_, fits_of_present? ?_, ?_⟩
      · have hfits := fits_lookup hmembers "file".text
        rwa [hfile] at hfits
      · have hfits := fits_lookup hmembers "sourceRoot".text
        rwa [hroot] at hfits
      · intro items hitems
        have hfits := fits_lookup hmembers "sourcesContent".text
        rwa [hcontents, hitems] at hfits

theorem load_text_iff {text : Text} {map : SourceMap} :
    load (.text text) = .ok map ↔
      ∃ value, Json.parse text = .ok value ∧ ofJson value = .ok map := by
  unfold load parse
  simp only
  split
  · rename_i heq
    simp [heq]
  · rename_i heq
    simp [heq]
  · rename_i heq
    simp [heq, Except.mapError_eq_ok]

theorem exists_load_withMappings
    {map : SourceMap} (hfits : map.Fits) {names : List Text}
    (hnames : map.names = names.map .string) {written : Text} {mappings : List Mapping}
    (hwritten : Text.paired written = written)
    (hdecode : Mapping.decode ⟨map.sources.length, map.names.length⟩ written = .ok mappings) :
    ∃ back, load (.text (map.withMappings written).print) = .ok back ∧
      back.sources = map.sources.map Text.paired ∧
      back.names = names.map (fun name => .string (Text.paired name)) ∧
      back.mappings = Mapping.sort mappings := by
  obtain ⟨file, hfile⟩ := Json.exists_fieldReadsAs (present?_fits hfits.file)
  obtain ⟨root, hroot⟩ := Json.exists_fieldReadsAs (present?_fits hfits.root)
  obtain ⟨contents, hcontents⟩ := Json.exists_contentsReadsAs hfits.contents
  have hread := Json.readsAs_fields hfile hroot
    (Json.readsAs_texts (Json.maxDepth - 2) map.sources)
    (Json.readsAs_texts (Json.maxDepth - 2) names) hwritten hcontents
  rw [← hnames, ← withMappings_eq] at hread
  have hlimits : Mapping.decode
      ⟨(map.sources.map fun source => Json.string (Text.paired source)).length,
        (names.map fun name => Json.string (Text.paired name)).length⟩ written =
      .ok mappings := by
    rw [hnames] at hdecode
    simpa using hdecode
  refine ⟨_, load_text_iff.mpr ⟨_, Json.parse_print hread, ofJson_fields hlimits⟩, ?_, rfl, rfl⟩
  rw [ofParts, List.map_map]
  rfl

/-- Whether a map is printed as a text that is read as another map. -/
def RestoredAs (map back : SourceMap) : Prop :=
  ∃ printed, map.print = .ok printed ∧ load (.text printed) = .ok back

/-- A map is restored from what is printed of it exactly if it is within the limits, and then
with its mappings in order and its texts with their halves paired. -/
theorem exists_restoredAs_iff
    {map : SourceMap} {names : List Text} (hnames : map.names = names.map .string)
    (hwf : ∀ mapping ∈ map.mappings,
      mapping.WellFormed ⟨map.sources.length, map.names.length⟩) :
    ((∃ back, map.RestoredAs back) ↔ map.Fits) ∧
      ∀ back, map.RestoredAs back →
        back.sources = map.sources.map Text.paired ∧
        back.names = names.map (fun name => .string (Text.paired name)) ∧
        back.mappings = Mapping.sort map.mappings := by
  obtain ⟨written, hwritten, hdecode⟩ := Mapping.exists_encode hwf
  have hprint : map.print = .ok (map.withMappings written).print := by
    rw [SourceMap.print, toJson, hwritten]
    rfl
  have hrestored (back : SourceMap) :
      map.RestoredAs back ↔ load (.text (map.withMappings written).print) = .ok back := by
    simp [RestoredAs, hprint]
  have hfits {back : SourceMap} (hback : map.RestoredAs back) : map.Fits := by
    obtain ⟨value, hvalue, -⟩ := load_text_iff.mp ((hrestored back).mp hback)
    exact fits_of_withMappings ((Json.exists_parse_print_iff _).mp ⟨value, hvalue⟩)
  have hread (hfits : map.Fits) :=
    exists_load_withMappings hfits hnames (Mapping.paired_encode hwf hwritten) hdecode
  refine ⟨⟨fun ⟨back, hback⟩ => hfits hback, fun hfits => ?_⟩, ?_⟩
  · obtain ⟨back, hback, -⟩ := hread hfits
    exact ⟨back, (hrestored back).mpr hback⟩
  · intro back hback
    obtain ⟨back', hback', hsources, hnames', hmappings⟩ := hread (hfits hback)
    obtain rfl := Except.ok.inj (((hrestored back).mp hback).symm.trans hback')
    rw [Mapping.sort_of_sorted (Mapping.sorted_sort map.mappings)] at hmappings
    exact ⟨hsources, hnames', hmappings⟩

/-! ## Maps that were read -/

/-- Whether a map is given as text, as bytes or as a value within the limits of the reader of
JSON. -/
def Given.Fits : Given → Prop
  | .map _ => False
  | .json value => value.Fits Json.maxDepth
  | .text _ => True
  | .bytes _ => True

theorem fits_orNull {room : Nat} {value : Json} (h : value.Fits room) :
    (orNull value).Fits room := by
  unfold orNull
  split
  · exact h
  · exact .null

theorem fits_of_ofJson
    {value : Json} {map : SourceMap} (hvalue : value.Fits Json.maxDepth)
    (h : ofJson value = .ok map) : map.Fits := by
  obtain ⟨members, sources, names, written, mappings, contents, rfl, -, hcontents, rfl⟩ :=
    exists_members_of_ofJson h
  cases hvalue with
  | object hmembers =>
      refine ⟨fits_lookup hmembers _, fits_orNull (fits_lookup hmembers _), ?_⟩
      intro items hitems
      have hlookup := hcontents items (Option.filter_eq_some_iff.mp hitems).1
      have hfits := fits_lookup hmembers "sourcesContent".text
      rwa [hlookup] at hfits

/-- What a map that was read carries along is within the limits of the reader. -/
theorem fits_of_load
    {given : Given} {map : SourceMap} (hfits : given.Fits) (h : load given = .ok map) :
    map.Fits := by
  have hgiven : ∀ ready, given ≠ .map ready := by
    rintro ready rfl
    exact hfits
  obtain ⟨value, hvalue, rfl | ⟨text, htext⟩⟩ := ofJson_of_load hgiven h
  · exact fits_of_ofJson hfits hvalue
  · exact fits_of_ofJson (Json.fits_of_parse htext) hvalue

end SourceMap

end UrlRebase
