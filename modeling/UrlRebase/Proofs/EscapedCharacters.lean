import UrlRebase.Proofs.PayloadSpelling

/-!
# Escaped characters

Which character of a text is escaped can be told from its left: the backslashes before it pair
off, and one is left over.  So a payload may be cut in front of any character that is not escaped
and that no hexadecimal escape takes along: what is left and right of the cut are whole units.
Decoding works unit by unit, hence on either side of such a cut.
-/

namespace UrlRebase

namespace Escape

/-- Whether the character behind a text is escaped: the text ends in an odd number of
backslashes. -/
def EscapesNext (text : Text) : Prop :=
  Odd (text.rtakeWhile (· = CodePoint.char '\\')).length

theorem not_escapesNext_nil : ¬EscapesNext [] := by
  simp [EscapesNext]

theorem escapesNext_concat_iff {text : Text} {c : CodePoint} :
    EscapesNext (text ++ [c]) ↔ c = '\\' ∧ ¬EscapesNext text := by
  unfold EscapesNext
  rw [List.rtakeWhile_concat]
  by_cases hc : c = '\\'
  · simp [hc, Nat.odd_add_one]
  · simp [hc]

theorem escapesNext_append_iff {before : Text} (hbefore : ¬EscapesNext before) (text : Text) :
    EscapesNext (before ++ text) ↔ EscapesNext text := by
  induction text using List.reverseRecOn with
  | nil => simp [hbefore, not_escapesNext_nil]
  | append_singleton text c ih =>
      rw [← List.append_assoc, escapesNext_concat_iff, escapesNext_concat_iff, ih]

theorem not_escapesNext_of_notMem {text : Text} (htext : CodePoint.char '\\' ∉ text) :
    ¬EscapesNext text := by
  induction text using List.reverseRecOn with
  | nil => exact not_escapesNext_nil
  | append_singleton text c ih =>
      rw [escapesNext_concat_iff]
      rintro ⟨rfl, -⟩
      simp at htext

theorem not_escapesNext_singleton {c : CodePoint} (hc : c ≠ '\\') : ¬EscapesNext [c] := by
  apply not_escapesNext_of_notMem
  rw [List.mem_singleton]
  exact hc.symm

theorem escapesNext_backslash : EscapesNext [.char '\\'] := by
  rw [← List.nil_append [_], escapesNext_concat_iff]
  exact ⟨rfl, not_escapesNext_nil⟩

theorem not_escapesNext_pair (c : CodePoint) : ¬EscapesNext [.char '\\', c] := by
  have hconcat : [CodePoint.char '\\', c] = [.char '\\'] ++ [c] := rfl
  rw [hconcat, escapesNext_concat_iff]
  exact fun h => h.2 escapesNext_backslash

/-- A whole escape leaves the character behind it alone. -/
theorem not_escapesNext_escape {text body : Text} (hbody : body? text = some body) :
    ¬EscapesNext ('\\' :: body) := by
  obtain ⟨c, tail, rfl, -, -, htail⟩ := body?_shape hbody
  have htailPlain : CodePoint.char '\\' ∉ tail := fun hmem =>
    absurd (htail _ hmem) (by decide)
  have hsplit : CodePoint.char '\\' :: c :: tail = [.char '\\', c] ++ tail := rfl
  rw [hsplit, escapesNext_append_iff (not_escapesNext_pair c)]
  exact not_escapesNext_of_notMem htailPlain

theorem exists_of_escapesNext {text : Text} (htext : EscapesNext text) :
    ∃ name, text = name ++ [.char '\\'] ∧ ¬EscapesNext name := by
  induction text using List.reverseRecOn with
  | nil => exact absurd htext not_escapesNext_nil
  | append_singleton text c ih =>
      obtain ⟨rfl, hname⟩ := escapesNext_concat_iff.mp htext
      exact ⟨text, rfl, hname⟩

/-! ## Bodies of escapes -/

theorem hexDigits_self
    {digits behind : Text} (hdigits : hexDigits (digits ++ behind) = digits) :
    hexDigits digits = digits := by
  have hall : ∀ c ∈ digits, Text.isHex c = true := fun c hmem =>
    isHex_of_mem_hexDigits (hdigits.symm ▸ hmem)
  have hlength : digits.length ≤ 6 := hdigits ▸ length_hexDigits_le _
  rw [hexDigits, List.take_of_length_le hlength, List.takeWhile_eq_self_iff.mpr hall]

/-- The parts of a hexadecimal escape are the same if the text ends with it. -/
theorem exists_parts_of_body?
    {c : CodePoint} {tail behind : Text} (hhex : Text.isHex c = true)
    (hbody : body? (c :: tail ++ behind) = some (c :: tail)) :
    ∃ digits taken, c :: tail = digits ++ taken ∧
      hexDigits (digits ++ (taken ++ behind)) = digits ∧ hexDigits (digits ++ taken) = digits ∧
      optional isBlank (taken ++ behind) = taken ∧ optional isBlank taken = taken := by
  obtain ⟨d, rest, htext, -, ⟨hnot, -⟩ | ⟨-, hsplit⟩⟩ := body?_eq_some_iff.mp hbody
  · obtain rfl := (List.cons.inj htext).1
    simp [hhex] at hnot
  generalize hdigits : hexDigits (c :: tail ++ behind) = digits at hsplit
  generalize htaken : optional isBlank ((c :: tail ++ behind).drop digits.length) = taken at hsplit
  rw [hsplit, List.append_assoc] at hdigits htaken
  rw [List.drop_left] at htaken
  refine ⟨digits, taken, hsplit, hdigits, ?_, htaken, ?_⟩
  · cases taken with
    | nil => exact (List.append_nil digits).symm ▸ hexDigits_self hdigits
    | cons blank more => exact hexDigits_append_of_head? hdigits rfl
  · cases taken with
    | nil => rfl
    | cons blank more => exact (optional_of_head? rfl).trans htaken

theorem body?_self {body behind : Text} (hbody : body? (body ++ behind) = some body) :
    body? body = some body := by
  obtain ⟨c, tail, rfl, hbreak, hshort, -⟩ := body?_shape hbody
  refine body?_eq_some_iff.mpr ⟨c, tail, rfl, hbreak, ?_⟩
  by_cases hhex : Text.isHex c = true
  · obtain ⟨digits, taken, hsplit, -, hdigits, -, htaken⟩ := exists_parts_of_body? hhex hbody
    rw [hsplit, hdigits, List.drop_left, htaken]
    exact .inr ⟨hhex, rfl⟩
  · have hnot := Bool.eq_false_of_not_eq_true hhex
    exact .inl ⟨hnot, by rw [hshort hnot]⟩

/-- Of what follows an escape the end may be cut off. -/
theorem body?_of_append
    {body rest behind : Text} (hbody : body? (body ++ (rest ++ behind)) = some body) :
    body? (body ++ rest) = some body := by
  cases rest with
  | nil =>
      rw [List.append_nil]
      exact body?_self hbody
  | cons c rest => exact body?_append_of_head? hbody rfl

/-- A character that is not escaped and belongs to no escape lies behind the escapes. -/
theorem exists_append_of_body
    {text body before rest tail : Text} {c : CodePoint} (hbody : body? text = some body)
    (hbefore : ¬EscapesNext ('\\' :: before)) (hhex : Text.isHex c = false)
    (hblank : isBlank c = false) (heq : before ++ c :: rest = body ++ tail) :
    ∃ left, before = body ++ left ∧ tail = left ++ c :: rest := by
  obtain ⟨d, more, rfl, -, -, hmore⟩ := body?_shape hbody
  cases before with
  | nil => exact absurd escapesNext_backslash hbefore
  | cons e before =>
      obtain ⟨rfl, hinside⟩ := List.cons.inj heq
      rcases List.append_eq_append_iff.mp hinside with
        ⟨middle, rfl, hrest⟩ | ⟨left, rfl, htail⟩
      · cases middle with
        | nil => exact ⟨[], by simp, by simpa using hrest.symm⟩
        | cons d middle =>
            obtain ⟨rfl, -⟩ := List.cons.inj hrest
            simpa [hhex, hblank] using hmore c (by simp)
      · exact ⟨left, rfl, htail⟩

theorem body?_append_of_not_hex
    {c : CodePoint} (hbreak : isBreak c = false) (hhex : Text.isHex c = false) (rest : Text) :
    body? ([c] ++ rest) = some [c] :=
  body?_eq_some_iff.mpr ⟨c, rest, rfl, hbreak, .inl ⟨hhex, rfl⟩⟩

end Escape

namespace Reading

namespace Spelled

open Escape

variable {quote : Quote} {raw before behind : Text} {c : CodePoint}

theorem append
    (hbefore : Spelled quote (raw ++ behind) before) (hraw : Spelled quote behind raw) :
    Spelled quote behind (before ++ raw) := by
  induction hbefore with
  | nil => exact hraw
  | ordinary hc hrest ih => exact .ordinary hc ih
  | @escape body rest hbody hrest ih =>
      rw [List.cons_append, List.append_assoc]
      exact .escape (by rwa [List.append_assoc]) ih

theorem not_escapesNext (hraw : Spelled quote behind raw) : ¬EscapesNext raw := by
  induction hraw with
  | nil => exact not_escapesNext_nil
  | ordinary hc hrest ih =>
      have hplain := not_escapesNext_singleton (isOrdinary_iff.mp hc).1
      rwa [← List.singleton_append, escapesNext_append_iff hplain]
  | escape hbody hrest ih =>
      have hescape := not_escapesNext_escape (Escape.body?_self hbody)
      rwa [← List.cons_append, escapesNext_append_iff hescape]

/-- A payload is cut into units in front of a character that belongs to no escape. -/
theorem cut
    {rest : Text} (hraw : Spelled quote behind (before ++ c :: rest))
    (hbefore : ¬EscapesNext before) (hhex : Text.isHex c = false) (hblank : isBlank c = false) :
    Spelled quote (c :: rest ++ behind) before ∧ Spelled quote behind (c :: rest) := by
  -- The units up to the cut are taken one by one, and none of them escapes what is behind it.
  generalize hwhole : before ++ c :: rest = whole at hraw
  induction hraw generalizing before with
  | nil => simp at hwhole
  | @ordinary d tail hd htail ih =>
      cases before with
      | nil =>
          rw [List.nil_append] at hwhole
          exact ⟨.nil, hwhole ▸ .ordinary hd htail⟩
      | cons e before =>
          obtain ⟨rfl, htailEq⟩ := List.cons.inj hwhole
          have hplain := not_escapesNext_singleton (isOrdinary_iff.mp hd).1
          rw [← List.singleton_append, escapesNext_append_iff hplain] at hbefore
          obtain ⟨hleft, hright⟩ := ih hbefore htailEq
          exact ⟨.ordinary hd hleft, hright⟩
  | @escape body tail hbody htail ih =>
      cases before with
      | nil =>
          rw [List.nil_append] at hwhole
          exact ⟨.nil, hwhole ▸ .escape hbody htail⟩
      | cons e before =>
          obtain ⟨rfl, hinside⟩ := List.cons.inj hwhole
          obtain ⟨left, rfl, htailEq⟩ := exists_append_of_body hbody hbefore hhex hblank hinside
          rw [← List.cons_append, escapesNext_append_iff (not_escapesNext_escape hbody)] at hbefore
          obtain ⟨hleft, hright⟩ := ih hbefore htailEq.symm
          refine ⟨.escape ?_ hleft, hright⟩
          rwa [← List.append_assoc left, ← htailEq]

end Spelled

end Reading

/-! ## Decoding -/

theorem unescape_append_of_notMem
    {run : Text} (hrun : CodePoint.char '\\' ∉ run) (rest : Text) :
    unescape (run ++ rest) = run ++ unescape rest := by
  induction run with
  | nil => rfl
  | cons c run ih =>
      rw [List.mem_cons, not_or] at hrun
      rw [List.cons_append, unescape, ih hrun.2, List.cons_append]
      · exact fun hbackslash => absurd hbackslash.symm hrun.1
      · exact fun _ _ hbackslash => absurd hbackslash.symm hrun.1

namespace Escape

theorem unescape_cons {c : CodePoint} (hc : c ≠ '\\') (rest : Text) :
    unescape (c :: rest) = c :: unescape rest := by
  have hrun : CodePoint.char '\\' ∉ [c] := by
    rw [List.mem_singleton]
    exact hc.symm
  exact unescape_append_of_notMem hrun rest

theorem optional_isTerminator
    {text : Text} (hbreak : text.head? ≠ some (.char '\n')) :
    optional isTerminator text = optional isBlank text := by
  cases text with
  | nil => rfl
  | cons c rest =>
      have hc : c ≠ '\n' := fun h => hbreak (by rw [h]; rfl)
      have hsame : isTerminator c = isBlank c := by
        simp [isTerminator, isBlank, hc, Bool.or_assoc]
      simp [optional, List.takeWhile_cons, hsame]

/-- An escape is decoded by what it takes, without a look at what is behind it. -/
theorem unescape_escape_append
    {body behind : Text} (hbody : body? (body ++ behind) = some body)
    (hbreak : behind.head? ≠ some (.char '\n')) :
    unescape ('\\' :: (body ++ behind)) = unescape ('\\' :: body) ++ unescape behind := by
  obtain ⟨first, tail, rfl, -, hshort, -⟩ := body?_shape hbody
  -- The character that is decoded is the same with any text behind the escape, also with none.
  have hdecode : ∃ c, ∀ behind, body? (first :: tail ++ behind) = some (first :: tail) →
      behind.head? ≠ some (.char '\n') →
        unescape ('\\' :: (first :: tail ++ behind)) = c :: unescape behind := by
    by_cases hhex : Text.isHex first = true
    · refine ⟨codePoint (Text.hexNumber (hexDigits (first :: tail))), ?_⟩
      intro behind hbody hbreak
      obtain ⟨digits, taken, hsplit, hdigits, halone, htaken, -⟩ :=
        exists_parts_of_body? hhex hbody
      have hhead : (taken ++ behind).head? ≠ some (.char '\n') := by
        cases taken with
        | nil => exact hbreak
        | cons blank more =>
            rintro hblank
            obtain rfl : blank = '\n' := by simpa using hblank
            simp [optional, isBlank] at htaken
      rw [List.cons_append, unescape, if_pos hhex, ← List.cons_append]
      simp only [hsplit, List.append_assoc, hdigits, halone, List.drop_left,
        optional_isTerminator hhead, htaken]
    · refine ⟨first, ?_⟩
      intro behind _ _
      rw [hshort (Bool.eq_false_of_not_eq_true hhex), List.singleton_append, unescape, if_neg hhex]
  obtain ⟨c, hdecode⟩ := hdecode
  have halone := hdecode [] (by rw [List.append_nil]; exact body?_self hbody) (by simp)
  rw [List.append_nil, unescape] at halone
  rw [hdecode behind hbody hbreak, halone]
  rfl

end Escape

theorem Reading.Spelled.unescape_append
    {quote : Quote} {raw behind : Text} (hraw : Spelled quote behind raw)
    (hbreak : behind.head? ≠ some (.char '\n')) :
    unescape (raw ++ behind) = unescape raw ++ unescape behind := by
  induction hraw with
  | nil => rw [unescape]; rfl
  | @ordinary c rest hc hrest ih =>
      have hbackslash := (isOrdinary_iff.mp hc).1
      rw [List.cons_append, Escape.unescape_cons hbackslash, ih, Escape.unescape_cons hbackslash,
        List.cons_append]
  | @escape body rest hbody hrest ih =>
      have hrestHead : rest.head? ≠ some (.char '\n') :=
        hrest.head?_ne_of_not_ordinary (by decide) (by cases quote <;> decide)
      have hhead : (rest ++ behind).head? ≠ some (.char '\n') := by
        cases rest with
        | nil => exact hbreak
        | cons c rest => exact hrestHead
      have halone := Escape.body?_of_append hbody
      rw [List.cons_append, List.append_assoc, Escape.unescape_escape_append hbody hhead, ih,
        Escape.unescape_escape_append halone hrestHead, List.append_assoc]

end UrlRebase
