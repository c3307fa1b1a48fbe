import UrlRebase.Proofs.SpelledIntegers

/-!
# Joined segments

A segment that spells integers is complete: its last character is the last digit of a number.
So what stands behind it is read as it is read alone.  The integers of the segment come first,
and an error is the one of what stands behind, which is told with the segment before it if it
tells the whole text.
-/

namespace UrlRebase.Vlq

variable {segment rest : Text} {values others : List Int}

/-- How the error of a segment is told if the given text stands before it. -/
def errorBehind (segment : Text) : Malformed → Malformed
  | .truncated rest => .truncated (segment ++ rest)
  | error => error

theorem encode_append (values others : List Int) :
    encode (values ++ others) = encode values ++ encode others :=
  List.flatMap_append

theorem Spells.append (h : Spells segment values) (h' : Spells rest others) :
    Spells (segment ++ rest) (values ++ others) := by
  obtain ⟨parts, numbers, hparts, rfl, rfl⟩ := h
  obtain ⟨parts', numbers', hparts', rfl, rfl⟩ := h'
  refine ⟨parts ++ parts', numbers ++ numbers', ?_, ?_, ?_⟩
  · exact List.rel_append hparts hparts'
  · rw [List.flatten_append]
  · rw [List.map_append]

theorem Spells.isSome_value? (h : Spells segment values) :
    ∀ c ∈ segment, (Base64.value? c).isSome := by
  obtain ⟨digits, numbers, hdigits, -, -⟩ := h.exists_numbers
  intro c hc
  have hmem := List.mem_map_of_mem (f := digit?) hc
  rw [hdigits] at hmem
  obtain ⟨d, -, hd⟩ := List.mem_map.mp hmem
  rw [← digit?_eq_value?, ← hd, Option.isSome_some]

/-- What is wrong behind a complete segment is what is wrong with the whole. -/
theorem Spells.misspelt_append {error : Malformed} (h : Spells segment values)
    (h' : Misspelt rest error) : Misspelt (segment ++ rest) (errorBehind segment error) := by
  have hall {before : Text} (hbefore : ∀ b ∈ before, (Base64.value? b).isSome) :
      ∀ b ∈ segment ++ before, (Base64.value? b).isSome := by
    intro b hb
    rcases List.mem_append.mp hb with hb | hb
    · exact h.isSome_value? b hb
    · exact hbefore b hb
  cases h' with
  | digit hbefore hc =>
      rw [← List.append_assoc]
      exact .digit (hall hbefore) hc
  | truncated hbefore hc hmore =>
      rw [errorBehind, ← List.append_assoc]
      exact .truncated (hall hbefore) hc hmore

/-- Behind a complete segment the rest is decoded as it is alone. -/
theorem decode_append (h : decode segment = .ok values) (rest : Text) :
    decode (segment ++ rest) =
      ((decode rest).mapError (errorBehind segment)).map (values ++ ·) := by
  have hspells := decode_eq_ok_iff.mp h
  cases hrest : decode rest with
  | ok others => exact decode_eq_ok_iff.mpr (hspells.append (decode_eq_ok_iff.mp hrest))
  | error error =>
      exact decode_eq_error_iff.mpr (hspells.misspelt_append (decode_eq_error_iff.mp hrest))

/-- Integers of any size and sign are decoded from what they are encoded to, and the encodings
of lists that are joined are joined.  Where a complete segment is joined with another, complete
or not, the other one is decoded as it is alone, and its integers come behind those of the
first. -/
theorem decode_of_joined_segments (values others : List Int) :
    decode (encode values) = .ok values ∧
      encode (values ++ others) = encode values ++ encode others ∧
      ∀ (segment rest : Text) (first : List Int), decode segment = .ok first →
        decode (segment ++ rest) =
          ((decode rest).mapError (errorBehind segment)).map (first ++ ·) :=
  ⟨decode_encode values, encode_append values others, fun _ rest _ h => decode_append h rest⟩

/-- The segment `gA` spells zero with a digit more than is needed, and is complete. -/
theorem decode_of_joined_padded_zero :
    decode "gA".text = .ok [0] ∧
      decode ("gA".text ++ encode [-2 ^ 70, 1]) = .ok [0, -2 ^ 70, 1] := by
  have hzero : decode "gA".text = .ok [0] := rfl
  obtain ⟨hback, -, hjoined⟩ := decode_of_joined_segments [-2 ^ 70, 1] []
  refine ⟨hzero, ?_⟩
  rw [hjoined _ _ _ hzero, hback]
  rfl

end UrlRebase.Vlq
