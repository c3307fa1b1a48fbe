import UrlRebase.Proofs.PayloadSpelling

/-!
# The grammar of references

A reading is well-formed when its blanks are blanks and its payload is a non-empty
sequence of units up to what closes it.  `read?` reads exactly the well-formed readings,
and it reads each of them whatever text comes behind its closing parenthesis.
-/

namespace UrlRebase

namespace Quote

theorem exists_mark_eq {quote : Quote} (h : quote ≠ .none) :
    ∃ c, quote.mark = [c] ∧ ofChar? c = some quote ∧ isBlank c = false ∧ c ≠ '\\' ∧
      Reading.isOrdinary quote c = false := by
  cases quote with
  | none => exact absurd rfl h
  | single => exact ⟨'\'', by decide⟩
  | double => exact ⟨'"', by decide⟩

end Quote

namespace Reading

/-- What stands behind a payload, up to the closing parenthesis. -/
def closing (reading : Reading) : Text :=
  reading.quote.mark ++ reading.trailing ++ ")".text

theorem written_eq (reading : Reading) :
    reading.written =
      reading.leading ++ (reading.quote.mark ++ (reading.raw ++ reading.closing)) := by
  simp [written, closing]

/-- A reading that the text of a stylesheet can have. -/
structure WellFormed (reading : Reading) : Prop where
  leading : ∀ c ∈ reading.leading, isBlank c = true
  trailing : ∀ c ∈ reading.trailing, isBlank c = true
  nonempty : reading.raw ≠ []
  spelled : Spelled reading.quote reading.closing reading.raw

theorem closing_ne_nil (reading : Reading) : reading.closing ≠ [] := by
  simp [closing, String.text]

theorem head?_closing_append (reading : Reading) (rest : Text) :
    (reading.closing ++ rest).head? = reading.closing.head? := by
  rw [List.head?_append_of_ne_nil _ reading.closing_ne_nil]

theorem stops_closing
    {reading : Reading} (htrailing : ∀ c ∈ reading.trailing, isBlank c = true)
    (rest : Text) :
    Stops reading.quote (reading.closing ++ rest) := by
  by_cases hquote : reading.quote = .none
  · cases htrail : reading.trailing with
    | nil =>
        refine ⟨')', rest, ?_, by decide, by rw [hquote]; decide⟩
        simp [closing, hquote, htrail, Quote.mark, String.text]
    | cons c more =>
        have hblank : isBlank c = true := htrailing c (by simp [htrail])
        refine ⟨c, more ++ ")".text ++ rest, ?_, ?_, ?_⟩
        · simp [closing, hquote, htrail, Quote.mark]
        · rintro rfl
          exact absurd hblank (by decide)
        · simp [isOrdinary, hquote, hblank]
  · obtain ⟨c, hmark, -, -, hbackslash, hord⟩ := Quote.exists_mark_eq hquote
    exact ⟨c, reading.trailing ++ ")".text ++ rest, by simp [closing, hmark],
      hbackslash, hord⟩

theorem close?_eq_some_iff
    {leading raw behind rest : Text} {quote : Quote} {reading : Reading} :
    close? leading quote raw behind = some (reading, rest) ↔
      raw ≠ [] ∧ reading.leading = leading ∧ reading.quote = quote ∧
        reading.raw = raw ∧ (∀ c ∈ reading.trailing, isBlank c = true) ∧
        behind = reading.closing ++ rest := by
  constructor
  · intro h
    have hwritten := close?_written h
    unfold close? at h
    simp only at h
    split at h
    · rename_i hmark
      split at h
      · obtain ⟨rfl, rfl⟩ := Prod.mk.inj (Option.some.inj h)
        refine ⟨hmark.1, rfl, rfl, rfl, List.all_eq_true.mp List.all_takeWhile, ?_⟩
        rw [written_eq] at hwritten
        simpa using hwritten
      · simp at h
    · simp at h
  · rintro ⟨hraw, rfl, rfl, rfl, htrailing, rfl⟩
    have hbehind :
        reading.closing ++ rest =
          reading.quote.mark ++ (reading.trailing ++ (CodePoint.char ')' :: rest)) := by
      simp [closing, String.text]
    have htake :
        (reading.trailing ++ (CodePoint.char ')' :: rest)).takeWhile isBlank =
          reading.trailing := by
      rw [List.takeWhile_append_of_pos htrailing]
      simp [isBlank]
    have hdrop :
        (reading.trailing ++ (CodePoint.char ')' :: rest)).dropWhile isBlank =
          CodePoint.char ')' :: rest := by
      rw [List.dropWhile_append_of_pos htrailing]
      simp [isBlank]
    unfold close?
    rw [hbehind, if_pos ⟨hraw, by simp⟩]
    simp only [List.drop_left, htake, hdrop]

theorem wellFormed_of_close?
    {leading text raw behind rest : Text} {quote : Quote} {reading : Reading}
    (hleading : ∀ c ∈ leading, isBlank c = true)
    (hunits : units (isOrdinary quote) text = (raw, behind))
    (hclose : close? leading quote raw behind = some (reading, rest)) :
    reading.WellFormed := by
  obtain ⟨hraw, rfl, rfl, rfl, htrailing, rfl⟩ := close?_eq_some_iff.mp hclose
  refine ⟨hleading, htrailing, hraw, ?_⟩
  exact (units_spelled hunits).of_head? (reading.head?_closing_append rest).symm

theorem wellFormed_of_read?
    {text rest : Text} {reading : Reading} (h : read? text = some (reading, rest)) :
    reading.WellFormed := by
  have hleading : ∀ c ∈ text.takeWhile isBlank, isBlank c = true :=
    List.all_eq_true.mp List.all_takeWhile
  unfold read? at h
  simp only at h
  split at h
  · simp at h
  · split at h
    · exact wellFormed_of_close? hleading rfl h
    · exact wellFormed_of_close? hleading rfl h

namespace WellFormed

variable {reading : Reading}

theorem units_eq (hreading : reading.WellFormed) (rest : Text) :
    units (isOrdinary reading.quote) (reading.raw ++ (reading.closing ++ rest)) =
      (reading.raw, reading.closing ++ rest) :=
  (hreading.spelled.of_head? (reading.head?_closing_append rest)).units_eq
    (stops_closing hreading.trailing rest)

theorem close?_eq (hreading : reading.WellFormed) (rest : Text) :
    close? reading.leading reading.quote reading.raw (reading.closing ++ rest) =
      some (reading, rest) :=
  close?_eq_some_iff.mpr
    ⟨hreading.nonempty, rfl, rfl, rfl, hreading.trailing, rfl⟩

theorem head_raw
    (hreading : reading.WellFormed) (hquote : reading.quote = .none) :
    ∃ c rest, reading.raw = c :: rest ∧ isBlank c = false ∧ Quote.ofChar? c = none := by
  obtain ⟨c, rest, hraw⟩ := List.exists_cons_of_ne_nil hreading.nonempty
  have hspelled := hreading.spelled
  rw [hraw, hquote] at hspelled
  refine ⟨c, rest, hraw, ?_⟩
  rcases hspelled.head_cases with hord | rfl
  · obtain ⟨-, -, hnone, -⟩ := isOrdinary_iff.mp hord
    obtain ⟨hblank, hsingle, hdouble, -⟩ := hnone rfl
    exact ⟨hblank, by simp [Quote.ofChar?, hsingle, hdouble]⟩
  · exact ⟨by decide, by decide⟩

/-- A well-formed reading is read, whatever text is behind it. -/
theorem read?_append (hreading : reading.WellFormed) (rest : Text) :
    read? (reading.written ++ rest) = some (reading, rest) := by
  have htext :
      reading.written ++ rest =
        reading.leading ++ (reading.quote.mark ++
          (reading.raw ++ (reading.closing ++ rest))) := by
    rw [written_eq]
    simp only [List.append_assoc]
  rw [htext]
  unfold read?
  rw [List.takeWhile_append_of_pos hreading.leading,
    List.dropWhile_append_of_pos hreading.leading]
  by_cases hquote : reading.quote = .none
  · obtain ⟨c, more, hraw, hblank, hnone⟩ := hreading.head_raw hquote
    have hunits := hreading.units_eq rest
    have hclose := hreading.close?_eq rest
    rw [hquote, hraw, List.cons_append] at hunits
    rw [hquote, hraw] at hclose
    simp only [hquote, hraw, Quote.mark, List.nil_append, List.cons_append,
      List.takeWhile_cons, List.dropWhile_cons, hblank, Bool.false_eq_true, if_false,
      hnone, hunits, List.append_nil, hclose]
  · obtain ⟨c, hmark, hsome, hblank, -⟩ := Quote.exists_mark_eq hquote
    have hunits := hreading.units_eq rest
    have hclose := hreading.close?_eq rest
    simp only [hmark, List.cons_append, List.nil_append, List.takeWhile_cons,
      List.dropWhile_cons, hblank, Bool.false_eq_true, if_false, hsome, hunits,
      List.append_nil, hclose]

end WellFormed

theorem read?_eq_some_iff {text rest : Text} {reading : Reading} :
    read? text = some (reading, rest) ↔
      reading.WellFormed ∧ text = reading.written ++ rest := by
  constructor
  · intro h
    exact ⟨wellFormed_of_read? h, read?_written h⟩
  · rintro ⟨hreading, rfl⟩
    exact hreading.read?_append rest

end Reading

end UrlRebase
