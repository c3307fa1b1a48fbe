import UrlRebase.Proofs.TokenSpans

/-!
# Readings derived by rules

`Derivation` says by rules, and without reading anything, what construct a text begins with:
blanks, a non-empty sequence of units with or without quotation marks around it, blanks and a
closing parenthesis.  A unit is an ordinary character or a whole escape, which takes as many
digits as it may and then a blank if there is one.  A text begins with at most one construct,
and `read?` finds it.
-/

namespace UrlRebase

namespace Escape

/-- Whether a stretch of a class is as long as it can be within a limit, where the text
`behind` follows it. -/
structure Takes (isMember : CodePoint → Bool) (limit : Nat) (taken behind : Text) : Prop where
  members : ∀ c ∈ taken, isMember c = true
  bounded : taken.length ≤ limit
  greedy : taken.length < limit → ∀ c, behind.head? = some c → isMember c = false

theorem takeWhile_take_eq_iff
    {isMember : CodePoint → Bool} {limit : Nat} {taken behind : Text} :
    ((taken ++ behind).take limit).takeWhile isMember = taken ↔
      Takes isMember limit taken behind := by
  constructor
  · intro h
    have hmembers : ∀ c ∈ taken, isMember c = true := by
      rw [← h]
      exact List.all_eq_true.mp List.all_takeWhile
    have hbounded : taken.length ≤ limit := by
      rw [← h]
      exact (List.takeWhile_prefix _).length_le.trans (List.length_take_le limit _)
    refine ⟨hmembers, hbounded, ?_⟩
    rintro hroom c hhead
    obtain ⟨rest, rfl⟩ := List.head?_eq_some_iff.mp hhead
    rw [List.take_append, List.take_of_length_le hbounded,
      List.takeWhile_append_of_pos hmembers, List.append_right_eq_self] at h
    obtain ⟨room, hlimit⟩ := Nat.exists_eq_add_of_lt hroom
    have hone : limit - taken.length = room + 1 := by omega
    rw [hone, List.take_succ_cons] at h
    by_contra hmember
    rw [List.takeWhile_cons_of_pos (by simpa using hmember)] at h
    simp at h
  · rintro ⟨hmembers, hbounded, hgreedy⟩
    rw [List.take_append, List.take_of_length_le hbounded,
      List.takeWhile_append_of_pos hmembers, List.append_right_eq_self]
    cases hroom : limit - taken.length with
    | zero => rw [List.take_zero, List.takeWhile_nil]
    | succ room =>
        cases behind with
        | nil => rfl
        | cons c rest =>
            have hnot := hgreedy (by omega) c rfl
            rw [List.take_succ_cons, List.takeWhile_cons_of_neg (by simp [hnot])]

/-- What an escape has behind its backslash, where the text `behind` follows it: one character
that is neither a digit nor a line break, or as many as possible of one to six digits and a
blank if there is one. -/
inductive Whole (behind : Text) : Text → Prop
  | char {c : CodePoint} (hhex : Text.isHex c = false) (hbreak : isBreak c = false) :
      Whole behind [c]
  | number {digits blank : Text} (hsome : digits ≠ [])
      (hdigits : Takes Text.isHex 6 digits (blank ++ behind))
      (hblank : Takes isBlank 1 blank behind) : Whole behind (digits ++ blank)

theorem body?_eq_some_iff_whole {body behind : Text} :
    body? (body ++ behind) = some body ↔ Whole behind body := by
  rw [body?_eq_some_iff]
  constructor
  · rintro ⟨c, rest, htext, hbreak, ⟨hhex, rfl⟩ | ⟨hhex, hsplit⟩⟩
    · exact .char hhex hbreak
    · generalize hdigits : hexDigits (body ++ behind) = digits at hsplit
      generalize hblank : optional isBlank ((body ++ behind).drop digits.length) = blank
        at hsplit
      subst hsplit
      rw [List.append_assoc] at hdigits hblank htext
      rw [List.drop_left] at hblank
      refine .number ?_ (takeWhile_take_eq_iff.mp hdigits) (takeWhile_take_eq_iff.mp hblank)
      rintro rfl
      rw [htext, hexDigits, List.take_succ_cons, List.takeWhile_cons_of_pos hhex] at hdigits
      simp at hdigits
  · rintro (@⟨c, hhex, hbreak⟩ | @⟨digits, blank, hsome, hdigits, hblank⟩)
    · exact ⟨c, behind, rfl, hbreak, .inl ⟨hhex, rfl⟩⟩
    · obtain ⟨c, more, rfl⟩ := List.exists_cons_of_ne_nil hsome
      have hhex := hdigits.members c List.mem_cons_self
      refine ⟨c, more ++ blank ++ behind, by simp, not_isBreak (.inl hhex), .inr ⟨hhex, ?_⟩⟩
      have hdigitsEq : hexDigits (c :: more ++ (blank ++ behind)) = c :: more :=
        takeWhile_take_eq_iff.mpr hdigits
      have hblankEq : optional isBlank (blank ++ behind) = blank :=
        takeWhile_take_eq_iff.mpr hblank
      rw [List.append_assoc, hdigitsEq, List.drop_left, hblankEq]

end Escape

namespace Reading

/-- Whether a character stands for itself in a payload: in quotation marks all do but the
backslash, that mark and line breaks, and without them also no blank, mark or parenthesis. -/
def Ordinary (quote : Quote) (c : CodePoint) : Prop :=
  c ≠ '\\' ∧ isBreak c = false ∧ c ∉ quote.mark ∧
    (quote = .none → isBlank c = false ∧ c ∉ ("'\"()".text : Text))

theorem isOrdinary_iff_ordinary {quote : Quote} {c : CodePoint} :
    isOrdinary quote c = true ↔ Ordinary quote c := by
  rw [isOrdinary_iff]
  cases quote <;> simp [Ordinary, Quote.mark, String.text]

/-- The sequences of units of a payload, where the text `behind` follows. -/
inductive Units (quote : Quote) (behind : Text) : Text → Prop
  | nil : Units quote behind []
  | ordinary {c : CodePoint} {rest : Text} (hc : Ordinary quote c)
      (hrest : Units quote behind rest) : Units quote behind (c :: rest)
  | escape {body rest : Text} (hbody : Escape.Whole (rest ++ behind) body)
      (hrest : Units quote behind rest) : Units quote behind ('\\' :: (body ++ rest))

theorem spelled_iff_units {quote : Quote} {behind raw : Text} :
    Spelled quote behind raw ↔ Units quote behind raw := by
  constructor
  · intro h
    induction h with
    | nil => exact .nil
    | ordinary hc hrest ih => exact .ordinary (isOrdinary_iff_ordinary.mp hc) ih
    | escape hbody hrest ih => exact .escape (Escape.body?_eq_some_iff_whole.mp hbody) ih
  · intro h
    induction h with
    | nil => exact .nil
    | ordinary hc hrest ih => exact .ordinary (isOrdinary_iff_ordinary.mpr hc) ih
    | escape hbody hrest ih => exact .escape (Escape.body?_eq_some_iff_whole.mpr hbody) ih

/-- Whether a text begins with a construct, and what is left of the text behind it. -/
structure Derivation (text : Text) (reading : Reading) (rest : Text) : Prop where
  text_eq : text = reading.leading ++ (reading.quote.mark ++ (reading.raw ++
    (reading.quote.mark ++ (reading.trailing ++ .char ')' :: rest))))
  leading : ∀ c ∈ reading.leading, isBlank c = true
  trailing : ∀ c ∈ reading.trailing, isBlank c = true
  nonempty : reading.raw ≠ []
  units : Units reading.quote (reading.quote.mark ++ (reading.trailing ++ .char ')' :: rest))
    reading.raw

theorem closing_append (reading : Reading) (rest : Text) :
    reading.closing ++ rest =
      reading.quote.mark ++ (reading.trailing ++ .char ')' :: rest) := by
  simp [closing, String.text]

/-- What is read is what the rules derive. -/
theorem read?_eq_some_iff_derivation {text rest : Text} {reading : Reading} :
    read? text = some (reading, rest) ↔ Derivation text reading rest := by
  have hwritten : reading.written ++ rest = reading.leading ++ (reading.quote.mark ++
      (reading.raw ++ (reading.quote.mark ++ (reading.trailing ++ .char ')' :: rest)))) := by
    rw [written_eq, List.append_assoc, List.append_assoc, List.append_assoc, closing_append]
  have hhead := head?_closing_append reading rest
  rw [read?_eq_some_iff, hwritten]
  constructor
  · rintro ⟨⟨hleading, htrailing, hnonempty, hspelled⟩, htext⟩
    refine ⟨htext, hleading, htrailing, hnonempty, ?_⟩
    rw [← closing_append, ← spelled_iff_units]
    exact hspelled.of_head? hhead
  · rintro ⟨htext, hleading, htrailing, hnonempty, hunits⟩
    rw [← closing_append, ← spelled_iff_units] at hunits
    exact ⟨⟨hleading, htrailing, hnonempty, hunits.of_head? hhead.symm⟩, htext⟩

namespace Derivation

variable {text rest rest' : Text} {reading reading' : Reading}

/-- A text begins with one construct at most. -/
theorem unique (h : Derivation text reading rest) (h' : Derivation text reading' rest') :
    reading' = reading ∧ rest' = rest := by
  have hread := (read?_eq_some_iff_derivation.mpr h').symm.trans
    (read?_eq_some_iff_derivation.mpr h)
  exact Prod.mk.inj (Option.some.inj hread)

/-- The payload of a construct behind an offset lies where the lengths of what is before it
say. -/
theorem between_eq {pos : Nat} (h : Derivation (text.drop pos) reading rest) :
    text.between (pos + reading.lead) (pos + reading.lead + reading.raw.length) =
      reading.raw := by
  have hpos : pos ≤ text.length := by
    by_contra hlt
    have hnil : text.drop pos = [] := List.drop_of_length_le (by omega)
    simpa [hnil] using h.text_eq
  have htext : text = (text.take pos ++ (reading.leading ++ reading.quote.mark)) ++
      (reading.raw ++
        (reading.quote.mark ++ (reading.trailing ++ .char ')' :: rest))) := by
    simpa using (List.take_append_drop pos text).symm.trans
      (congrArg (text.take pos ++ ·) h.text_eq)
  have hlength : (text.take pos ++ (reading.leading ++ reading.quote.mark)).length =
      pos + reading.lead := by
    rw [List.length_append, List.length_append, List.length_take_of_le hpos, lead]
  exact Text.between_eq htext hlength.symm (by rw [hlength])

end Derivation

/-- Behind an offset something is read exactly if the rules derive it, and then it is the only
construct there: its payload and its end are where the rules have them. -/
theorem read?_drop_iff (text : Text) (pos : Nat) :
    ((∃ result, read? (text.drop pos) = some result) ↔
        ∃ reading rest, Derivation (text.drop pos) reading rest) ∧
      ∀ reading rest, Derivation (text.drop pos) reading rest →
        read? (text.drop pos) = some (reading, rest) ∧
          (∀ reading' rest', Derivation (text.drop pos) reading' rest' →
            reading' = reading ∧ rest' = rest) ∧
          text.between (pos + reading.lead) (pos + reading.lead + reading.raw.length) =
            reading.raw ∧
          text.drop (pos + reading.written.length) = rest := by
  constructor
  · constructor
    · rintro ⟨⟨reading, rest⟩, hread⟩
      exact ⟨reading, rest, read?_eq_some_iff_derivation.mp hread⟩
    · rintro ⟨reading, rest, hderived⟩
      exact ⟨_, read?_eq_some_iff_derivation.mpr hderived⟩
  · intro reading rest hderived
    have hread := read?_eq_some_iff_derivation.mpr hderived
    refine ⟨hread, fun _ _ => hderived.unique, hderived.between_eq, ?_⟩
    rw [← List.drop_drop, read?_written hread, List.drop_left]

theorem read?_drop_iff_of_greedy_escape :
    Derivation ("url( \\41 B)".text.drop 4) ⟨" ".text, .none, "\\41 B".text, []⟩ [] ∧
      read? ("url( \\41 B)".text.drop 4) = some (⟨" ".text, .none, "\\41 B".text, []⟩, []) ∧
      "url( \\41 B)".text.between 5 10 = "\\41 B".text := by
  have hdigits : Escape.Takes Text.isHex 6 "41".text (" ".text ++ "B)".text) := by
    refine ⟨by decide, by decide, fun _ c hc => ?_⟩
    obtain rfl := Option.some.inj hc
    decide
  have hblank : Escape.Takes isBlank 1 " ".text "B)".text :=
    ⟨by decide, by decide, fun hroom => absurd hroom (by decide)⟩
  have hescape : Escape.Whole "B)".text "41 ".text := .number (by decide) hdigits hblank
  have hunits : Units .none ")".text "\\41 B".text :=
    .escape hescape (.ordinary (by unfold Ordinary; decide) .nil)
  have hderived :
      Derivation ("url( \\41 B)".text.drop 4) ⟨" ".text, .none, "\\41 B".text, []⟩ [] :=
    ⟨rfl, by decide, by decide, by decide, hunits⟩
  obtain ⟨hread, -, hbetween, -⟩ := (read?_drop_iff "url( \\41 B)".text 4).2 _ _ hderived
  exact ⟨hderived, hread, hbetween⟩

end Reading

end UrlRebase
