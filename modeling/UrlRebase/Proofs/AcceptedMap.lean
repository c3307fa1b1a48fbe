import UrlRebase.Proofs.WrittenMappings
import UrlRebase.SourceMap.Lineage

/-!
# Maps that are accepted

A map that is not given ready-made is accepted only after it was read.  Its mappings are
then sorted, and each that has a source has the index of one that the map lists.

A map that is refused is told to be malformed, unless its bytes are not UTF-8, its values are
nested too deeply, or the index it is refused for is too long to be told.
-/

namespace UrlRebase

theorem Except.bind_eq_ok {ε α β : Type} {result : Except ε α} {next : α → Except ε β} {b : β} :
    (result >>= next) = .ok b ↔ ∃ a, result = .ok a ∧ next a = .ok b := by
  cases result <;> simp [bind, Except.bind]

theorem Except.error_bind_ne_ok
    {ε α β : Type} {error : ε} {next : α → Except ε β} {b : β} :
    ((.error error : Except ε α) >>= next) ≠ .ok b := by
  simp [bind, Except.bind]

theorem Except.mapError_eq_ok
    {ε ε' α : Type} {result : Except ε α} {f : ε → ε'} {a : α} :
    result.mapError f = .ok a ↔ result = .ok a := by
  cases result <;> simp [Except.mapError]

theorem Except.mapError_eq_error
    {ε ε' α : Type} {result : Except ε α} {f : ε → ε'} {error : ε'} :
    result.mapError f = .error error ↔ ∃ cause, result = .error cause ∧ f cause = error := by
  cases result <;> simp [Except.mapError]

namespace Mapping

/-- Whether the source of a mapping, if it has one, is among the first so many. -/
def InRange (sources : Nat) (mapping : Mapping) : Prop :=
  ∀ index, mapping.source = some index → 0 ≤ index ∧ index < sources

theorem WellFormed.inRange
    {limits : Limits} {mapping : Mapping} (h : mapping.WellFormed limits) :
    mapping.InRange limits.sources := by
  intro index hindex
  cases h with
  | unmapped => simp at hindex
  | mapped _ _ hsource =>
      obtain rfl := Option.some.inj hindex
      exact hsource

end Mapping

namespace SourceMap

/-- Whether a map is one that was read from a value, a text or bytes. -/
def Accepted (map : SourceMap) : Prop :=
  ∃ given, (∀ ready, given ≠ .map ready) ∧ load given = .ok map

/-- A value is read as a map only if it is an object, and by reading the mappings within the
map's own limits. -/
theorem exists_members_of_ofJson {value : Json} {map : SourceMap} (h : ofJson value = .ok map) :
    ∃ (members : List (Text × Json)) (sources names : List Json) (written : Text)
      (mappings : List Mapping) (contents : Option (List Json)),
      value = .object members ∧
      Mapping.decode ⟨sources.length, names.length⟩ written = .ok mappings ∧
      (∀ items, contents = some items →
        members.lookup "sourcesContent".text = some (.array items)) ∧
      map = ofParts (sources.map sourceName) mappings names
        ((members.lookup "file".text).getD .null)
        (orNull ((members.lookup "sourceRoot".text).getD .null)) contents := by
  unfold ofJson at h
  simp only at h
  split at h
  case h_2 => simp at h
  rename_i members
  split at h
  · exact absurd h Except.error_bind_ne_ok
  split at h
  · exact absurd h Except.error_bind_ne_ok
  split at h
  case h_2 => simp at h
  rename_i sources hsources
  split at h
  case h_2 => simp at h
  rename_i written hwritten
  split at h
  case h_2 => simp at h
  rename_i names hnames
  split at h
  · obtain ⟨contents, hcontents, h⟩ := Except.bind_eq_ok.mp h
    obtain rfl := Except.ok.inj hcontents
    obtain ⟨mappings, hmappings, h⟩ := Except.bind_eq_ok.mp h
    exact ⟨members, sources, names, written, mappings, none, rfl, hmappings, by simp,
      (Except.ok.inj h).symm⟩
  · rename_i items hitems
    obtain ⟨contents, hcontents, h⟩ := Except.bind_eq_ok.mp h
    obtain rfl := Except.ok.inj hcontents
    obtain ⟨mappings, hmappings, h⟩ := Except.bind_eq_ok.mp h
    refine ⟨members, sources, names, written, mappings, some items, rfl, hmappings, ?_,
      (Except.ok.inj h).symm⟩
    intro items' hitems'
    obtain rfl := Option.some.inj hitems'
    cases hlookup : members.lookup "sourcesContent".text with
    | none => simp [hlookup] at hitems
    | some found => rwa [hlookup, Option.getD_some, ← Option.some_inj] at hitems
  · exact absurd h Except.error_bind_ne_ok

theorem decode_of_ofJson {value : Json} {map : SourceMap} (h : ofJson value = .ok map) :
    ∃ written mappings, map.mappings = Mapping.sort mappings ∧
      Mapping.decode ⟨map.sources.length, map.names.length⟩ written = .ok mappings := by
  obtain ⟨members, sources, names, written, mappings, contents, -, hdecode, -, rfl⟩ :=
    exists_members_of_ofJson h
  refine ⟨written, mappings, rfl, ?_⟩
  rwa [← List.length_map sourceName] at hdecode

theorem ofJson_of_load
    {given : Given} {map : SourceMap} (hgiven : ∀ ready, given ≠ .map ready)
    (h : load given = .ok map) :
    ∃ value, ofJson value = .ok map ∧
      (given = .json value ∨ ∃ text, Json.parse text = .ok value) := by
  have hparse {text : Text} (h : parse text = .ok map) :
      ∃ value, ofJson value = .ok map ∧
        (given = .json value ∨ ∃ text, Json.parse text = .ok value) := by
    unfold parse at h
    split at h
    · simp at h
    · simp at h
    · rename_i value hvalue
      exact ⟨value, Except.mapError_eq_ok.mp h, .inr ⟨text, hvalue⟩⟩
  unfold load at h
  split at h
  · exact absurd rfl (hgiven _)
  · exact hparse h
  · exact ⟨_, Except.mapError_eq_ok.mp h, .inl rfl⟩
  · exact hparse h
  · split at h
    · simp at h
    · exact hparse h

/-- An object with the version, lists of sources and of names and readable mappings is read. -/
theorem ofJson_object
    {members : List (Text × Json)} {sources names : List Json} {written : Text}
    {mappings : List Mapping} {contents : Option (List Json)}
    (hsections : members.lookup "sections".text = none)
    (hversion : members.lookup "version".text = some (.int 3))
    (hsources : members.lookup "sources".text = some (.array sources))
    (hnames : members.lookup "names".text = some (.array names))
    (hwritten : members.lookup "mappings".text = some (.string written))
    (hcontents : members.lookup "sourcesContent".text = contents.map .array)
    (hdecode : Mapping.decode ⟨sources.length, names.length⟩ written = .ok mappings) :
    ofJson (.object members) = .ok (ofParts (sources.map sourceName) mappings names
      ((members.lookup "file".text).getD .null)
      (orNull ((members.lookup "sourceRoot".text).getD .null)) contents) := by
  have hthree : isVersion (.int 3) = true := by cbv
  have hlist : (if (Json.array names).truthy then some names else some []) = some names := by
    cases names <;> rfl
  cases contents <;>
    simp [ofJson, hsections, hversion, hsources, hnames, hwritten, hcontents, hthree, hlist,
      list?, hdecode, bind, Except.bind, pure, Except.pure]

/-- The members of a written map; a field that is left out has no value. -/
def fields (file root : Option Json) (sources names : List Json) (written : Text)
    (contents : Option (List Json)) : List (Text × Json) :=
  [("version".text, .int 3)] ++ (file.map fun value => ("file".text, value)).toList ++
    (root.map fun value => ("sourceRoot".text, value)).toList ++
    [("sources".text, .array sources), ("names".text, .array names),
      ("mappings".text, .string written)] ++
    (contents.map fun items => ("sourcesContent".text, Json.array items)).toList

section Fields

variable {file root : Option Json} {sources names : List Json} {written : Text}
  {contents : Option (List Json)}

theorem lookup_fields :
    (fields file root sources names written contents).lookup "sections".text = none ∧
    (fields file root sources names written contents).lookup "version".text = some (.int 3) ∧
    (fields file root sources names written contents).lookup "file".text = file ∧
    (fields file root sources names written contents).lookup "sourceRoot".text = root ∧
    (fields file root sources names written contents).lookup "sources".text =
      some (.array sources) ∧
    (fields file root sources names written contents).lookup "names".text =
      some (.array names) ∧
    (fields file root sources names written contents).lookup "mappings".text =
      some (.string written) ∧
    (fields file root sources names written contents).lookup "sourcesContent".text =
      contents.map .array := by
  cases file <;> cases root <;> cases contents <;>
    exact ⟨rfl, rfl, rfl, rfl, rfl, rfl, rfl, rfl⟩

theorem ofJson_fields
    {mappings : List Mapping}
    (hdecode : Mapping.decode ⟨sources.length, names.length⟩ written = .ok mappings) :
    ofJson (.object (fields file root sources names written contents)) =
      .ok (ofParts (sources.map sourceName) mappings names (file.getD .null)
        (orNull (root.getD .null)) contents) := by
  obtain ⟨hsections, hversion, hfile, hroot, hsources, hnames, hwritten, hcontents⟩ :=
    @lookup_fields file root sources names written contents
  rw [ofJson_object hsections hversion hsources hnames hwritten hcontents hdecode, hfile, hroot]

/-- A map whose members can be read is accepted, whatever it carries along. -/
theorem accepted_fields
    {mappings : List Mapping}
    (hdecode : Mapping.decode ⟨sources.length, names.length⟩ written = .ok mappings)
    (file root : Option Json) (contents : Option (List Json)) :
    (ofParts (sources.map sourceName) mappings names (file.getD .null) (orNull (root.getD .null))
      contents).Accepted :=
  ⟨.json (.object (fields file root sources names written contents)), by simp,
    Except.mapError_eq_ok.mpr (ofJson_fields hdecode)⟩

end Fields

/-- Any written mappings of some sources are those of a map that is accepted. -/
theorem accepted_of_decode
    {sources : List Text} {written : Text} {mappings : List Mapping}
    (h : Mapping.decode ⟨sources.length, 0⟩ written = .ok mappings) :
    (ofParts sources mappings [] .null .null none).Accepted := by
  have hdecode : Mapping.decode ⟨(sources.map Json.string).length, ([] : List Json).length⟩
      written = .ok mappings := by
    rwa [List.length_map]
  have haccepted := accepted_fields hdecode none none none
  rwa [List.map_map, show sourceName ∘ Json.string = id from rfl, List.map_id] at haccepted

namespace Accepted

variable {map : SourceMap}

theorem exists_sort (hmap : map.Accepted) :
    ∃ mappings, map.mappings = Mapping.sort mappings := by
  obtain ⟨given, hgiven, hload⟩ := hmap
  obtain ⟨value, hvalue, -⟩ := ofJson_of_load hgiven hload
  obtain ⟨-, mappings, hsort, -⟩ := decode_of_ofJson hvalue
  exact ⟨mappings, hsort⟩

theorem wellFormed (hmap : map.Accepted) :
    ∀ mapping ∈ map.mappings, mapping.WellFormed ⟨map.sources.length, map.names.length⟩ := by
  obtain ⟨given, hgiven, hload⟩ := hmap
  obtain ⟨value, hvalue, -⟩ := ofJson_of_load hgiven hload
  obtain ⟨written, mappings, hsort, hdecode⟩ := decode_of_ofJson hvalue
  intro mapping hmapping
  rw [hsort, Mapping.sort, List.mem_mergeSort] at hmapping
  exact Mapping.wellFormed_of_decode hdecode mapping hmapping

theorem inRange (hmap : map.Accepted) :
    ∀ mapping ∈ map.mappings, mapping.InRange map.sources.length :=
  fun mapping hmapping => (hmap.wellFormed mapping hmapping).inRange

end Accepted

/-! ## Maps that cannot be read -/

/-- Whether a value is refused as a map for an index that has too many digits to be told. -/
def HasLongIndex (value : Json) : Prop :=
  ∃ error, ofJson value = .error error ∧ error.hasLongIndex = true

/-- Whether a text cannot be read as a map, and not for being malformed. -/
def UnreadableText (text : Text) : Prop :=
  Json.parse text = .error .tooDeep ∨
    ∃ value, Json.parse text = .ok value ∧ HasLongIndex value

/-- Whether a map cannot be read in the form it is given in, and not for being malformed. -/
def Unreadable : Given → Prop
  | .map _ => False
  | .json (.string text) => UnreadableText text
  | .json value => HasLongIndex value
  | .text text => UnreadableText text
  | .bytes bytes =>
      Utf8.decode? bytes = none ∨ ∃ text, Utf8.decode? bytes = some text ∧ UnreadableText text

/-- Whether a map is refused without being told to be malformed. -/
def Unexplained (result : Except LoadError SourceMap) : Prop :=
  ∃ error, result = .error error ∧ ∀ cause, error ≠ .malformed cause

theorem unexplained_ofJson_iff (value : Json) :
    Unexplained ((ofJson value).mapError .ofMalformed) ↔ HasLongIndex value := by
  unfold Unexplained HasLongIndex LoadError.ofMalformed
  cases ofJson value with
  | ok map => simp [Except.mapError]
  | error cause => cases h : cause.hasLongIndex <;> simp [Except.mapError, h]

theorem unexplained_parse_iff (text : Text) : Unexplained (parse text) ↔ UnreadableText text := by
  unfold parse UnreadableText
  cases hparse : Json.parse text with
  | ok value => simp [unexplained_ofJson_iff]
  | error cause => cases cause <;> simp [Unexplained]

/-- A map is refused without being told to be malformed exactly where it is unreadable. -/
theorem unexplained_load_iff (given : Given) : Unexplained (load given) ↔ Unreadable given := by
  cases given with
  | map map => simp [load, Unexplained, Unreadable]
  | json value =>
      cases value with
      | string text => exact unexplained_parse_iff text
      | _ => simp [load, Unreadable, unexplained_ofJson_iff]
  | text text => exact unexplained_parse_iff text
  | bytes bytes =>
      unfold load Unreadable
      cases hdecode : Utf8.decode? bytes with
      | none => simp [Unexplained, hdecode]
      | some text => simp [unexplained_parse_iff, hdecode]

end SourceMap

end UrlRebase
