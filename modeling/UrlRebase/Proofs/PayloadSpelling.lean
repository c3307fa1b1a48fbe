import UrlRebase.Reference.Reading
import Mathlib

/-!
# Payloads as sequences of units

`Reading.units` reads the units at the head of a text.  `Reading.Spelled` says the same
of a payload and the text behind it as a relation, whose rules add one unit each.  How
far an escape reaches depends on its own characters and on the one behind it, so a
payload stays spelled when the text behind it changes from its second character on.
-/

namespace UrlRebase

namespace Escape

theorem hexDigits_append_of_head?
    {digits behind behind' : Text}
    (hdigits : hexDigits (digits ++ behind) = digits)
    (hhead : behind'.head? = behind.head?) :
    hexDigits (digits ++ behind') = digits := by
  have hall : ∀ c ∈ digits, Text.isHex c = true := fun c hmem =>
    isHex_of_mem_hexDigits (hdigits.symm ▸ hmem)
  have hlength : digits.length ≤ 6 := hdigits ▸ length_hexDigits_le _
  have hsplit (text : Text) :
      hexDigits (digits ++ text) =
        digits ++ (text.take (6 - digits.length)).takeWhile Text.isHex := by
    unfold hexDigits
    rw [List.take_append, List.take_of_length_le hlength,
      List.takeWhile_append_of_pos hall]
  rw [hsplit, List.append_right_eq_self] at hdigits
  rw [hsplit, List.append_right_eq_self]
  -- If there is room for another digit, the next character alone decides.
  cases hroom : 6 - digits.length with
  | zero => simp
  | succ room =>
      rw [hroom] at hdigits
      cases behind with
      | nil =>
          obtain rfl : behind' = [] := by simpa using hhead
          rfl
      | cons c rest =>
          cases behind' with
          | nil => simp at hhead
          | cons c' rest' =>
              obtain rfl : c' = c := by simpa using hhead
              by_cases hc : Text.isHex c' <;> simp [hc] at hdigits ⊢

theorem optional_of_head?
    {isMember : CodePoint → Bool} {text text' : Text}
    (hhead : text'.head? = text.head?) :
    optional isMember text' = optional isMember text := by
  cases text <;> cases text' <;> simp_all [optional]

/-- The two ways in which an escape goes on behind its backslash. -/
theorem body?_eq_some_iff {text body : Text} :
    body? text = some body ↔
      ∃ c rest, text = c :: rest ∧ isBreak c = false ∧
        ((Text.isHex c = false ∧ body = [c]) ∨
          (Text.isHex c = true ∧
            body = hexDigits text ++
              optional isBlank (text.drop (hexDigits text).length))) := by
  cases text with
  | nil => simp [body?]
  | cons c rest =>
      cases hbreak : isBreak c with
      | true => simp [body?, hbreak]
      | false =>
          cases hhex : Text.isHex c <;>
            simp [body?, hbreak, hhex, @eq_comm _ body]

/-- Behind its first character an escape has only hexadecimal digits and a blank, and it
has these only if the first character is such a digit. -/
theorem body?_shape {text body : Text} (hbody : body? text = some body) :
    ∃ c tail, body = c :: tail ∧ isBreak c = false ∧
      (Text.isHex c = false → tail = []) ∧
      ∀ d ∈ tail, Text.isHex d = true ∨ isBlank d = true := by
  obtain ⟨c, rest, rfl, hbreak, ⟨hhex, rfl⟩ | ⟨hhex, rfl⟩⟩ :=
    body?_eq_some_iff.mp hbody
  · exact ⟨c, [], rfl, hbreak, by simp, by simp⟩
  · have hdigits : ∀ d ∈ hexDigits (c :: rest), Text.isHex d = true :=
      List.all_eq_true.mp List.all_takeWhile
    have hblank (text : Text) : ∀ d ∈ optional isBlank text, isBlank d = true :=
      List.all_eq_true.mp List.all_takeWhile
    have hcons : hexDigits (c :: rest) = c :: (rest.take 5).takeWhile Text.isHex := by
      simp [hexDigits, hhex]
    generalize (c :: rest).drop (hexDigits (c :: rest)).length = blank
    rw [hcons] at hdigits ⊢
    refine ⟨c, _, rfl, hbreak, by simp [hhex], ?_⟩
    intro d hd
    rcases List.mem_append.mp hd with hdigit | hd
    · exact .inl (hdigits d (List.mem_cons_of_mem c hdigit))
    · exact .inr (hblank blank d hd)

/-- An escape is as long as before if the character behind it is the same. -/
theorem body?_append_of_head?
    {body behind behind' : Text}
    (hbody : body? (body ++ behind) = some body)
    (hhead : behind'.head? = behind.head?) :
    body? (body ++ behind') = some body := by
  obtain ⟨first, tail, hfirst, -⟩ := body?_shape hbody
  obtain ⟨c, rest, htext, hbreak, hcases⟩ := body?_eq_some_iff.mp hbody
  obtain rfl : first = c := by
    rw [hfirst] at htext
    exact (List.cons.inj htext).1
  refine body?_eq_some_iff.mpr
    ⟨first, tail ++ behind', by rw [hfirst, List.cons_append], hbreak, ?_⟩
  refine hcases.imp_right fun ⟨hhex, hsplit⟩ => ⟨hhex, ?_⟩
  generalize hdigits : hexDigits (body ++ behind) = digits at hsplit
  generalize htaken : optional isBlank ((body ++ behind).drop digits.length) = taken
    at hsplit
  subst hsplit
  have hheadTaken : (taken ++ behind').head? = (taken ++ behind).head? := by
    simp [List.head?_append, hhead]
  rw [List.append_assoc] at hdigits htaken ⊢
  rw [List.drop_left] at htaken
  rw [hexDigits_append_of_head? hdigits hheadTaken, List.drop_left,
    optional_of_head? hheadTaken, htaken]

end Escape

namespace Reading

theorem isOrdinary_iff {quote : Quote} {c : CodePoint} :
    isOrdinary quote c = true ↔
      c ≠ '\\' ∧ isBreak c = false ∧
        (quote = .none →
          isBlank c = false ∧ c ≠ '\'' ∧ c ≠ '"' ∧ c ≠ '(' ∧ c ≠ ')') ∧
        (quote = .single → c ≠ '\'') ∧ (quote = .double → c ≠ '"') := by
  cases quote <;> simp [isOrdinary] <;> tauto

/-- A text is a sequence of units of a payload, where the given text follows it. -/
inductive Spelled (quote : Quote) (behind : Text) : Text → Prop
  | nil : Spelled quote behind []
  | ordinary {c : CodePoint} {rest : Text}
      (hc : isOrdinary quote c = true) (hrest : Spelled quote behind rest) :
      Spelled quote behind (c :: rest)
  | escape {body rest : Text}
      (hbody : Escape.body? (body ++ (rest ++ behind)) = some body)
      (hrest : Spelled quote behind rest) :
      Spelled quote behind ('\\' :: (body ++ rest))

/-- Nothing at the head of a text is a unit of a payload, whatever comes later. -/
def Stops (quote : Quote) (text : Text) : Prop :=
  ∃ c rest, text = c :: rest ∧ c ≠ '\\' ∧ isOrdinary quote c = false

theorem units_spelled
    {quote : Quote} {text raw behind : Text}
    (hunits : units (isOrdinary quote) text = (raw, behind)) :
    Spelled quote behind raw := by
  fun_induction units (isOrdinary quote) text generalizing raw behind with
  | case1 =>
      obtain ⟨rfl, rfl⟩ := Prod.mk.inj hunits
      exact .nil
  | case2 =>
      obtain ⟨rfl, rfl⟩ := Prod.mk.inj hunits
      exact .nil
  | case3 rest body hbody taken left htaken ih =>
      obtain ⟨rfl, rfl⟩ := Prod.mk.inj hunits
      have hrest := units_append (isOrdinary quote) (rest.drop body.length)
      rw [htaken] at hrest
      refine .escape ?_ (ih htaken)
      rw [hrest, Escape.body?_append_drop hbody]
      exact hbody
  | case4 c rest hc hord taken left htaken ih =>
      obtain ⟨rfl, rfl⟩ := Prod.mk.inj hunits
      exact .ordinary hord (ih htaken)
  | case5 =>
      obtain ⟨rfl, rfl⟩ := Prod.mk.inj hunits
      exact .nil

/-- Each opening parenthesis of a text but one at its start has a backslash before it. -/
def Guarded (text : Text) : Prop :=
  text.IsChain fun c d : CodePoint => d = '(' → c = '\\'

theorem head?_append_ne
    {c : CodePoint} {text rest : Text}
    (htext : ∀ d ∈ text, d ≠ c) (hrest : rest.head? ≠ some c) :
    (text ++ rest).head? ≠ some c := by
  cases text with
  | nil => exact hrest
  | cons d text => simpa using htext d List.mem_cons_self

theorem Guarded.cons
    {c : CodePoint} {rest : Text} (hrest : Guarded rest)
    (hhead : rest.head? ≠ some (.char '(') ∨ c = '\\') :
    Guarded (c :: rest) := by
  refine List.isChain_cons.mpr ⟨?_, hrest⟩
  rintro d hd rfl
  exact hhead.resolve_left (fun hne => hne hd)

theorem Guarded.append
    {text rest : Text} (htext : Guarded text) (hrest : Guarded rest)
    (hhead : rest.head? ≠ some (.char '(')) :
    Guarded (text ++ rest) := by
  refine List.isChain_append.mpr ⟨htext, hrest, ?_⟩
  rintro c - d hd rfl
  exact absurd hd hhead

theorem guarded_of_forall {text : Text} (htext : ∀ d ∈ text, d ≠ '(') : Guarded text := by
  induction text with
  | nil => exact .nil
  | cons c text ih =>
      have htail : ∀ d ∈ text, d ≠ '(' := fun d hd =>
        htext d (List.mem_cons_of_mem c hd)
      refine (ih htail).cons (.inl ?_)
      intro hhead
      exact htail _ (List.mem_of_head? hhead) rfl

namespace Spelled

variable {quote : Quote} {raw behind behind' : Text}

theorem units_eq (hraw : Spelled quote behind raw) (hstops : Stops quote behind) :
    units (isOrdinary quote) (raw ++ behind) = (raw, behind) := by
  induction hraw with
  | nil =>
      obtain ⟨c, rest, rfl, hbackslash, hord⟩ := hstops
      rw [List.nil_append, units, if_neg hbackslash, hord]
      rfl
  | @ordinary c rest hc hrest ih =>
      rw [List.cons_append, units, if_neg (isOrdinary_iff.mp hc).1, if_pos hc, ih]
  | @escape body rest hbody hrest ih =>
      rw [List.cons_append, List.append_assoc, units, if_pos rfl, hbody]
      simp only [List.drop_left, ih, List.cons_append]

/-- Only the first character behind a payload counts. -/
theorem of_head?
    (hraw : Spelled quote behind raw) (hhead : behind'.head? = behind.head?) :
    Spelled quote behind' raw := by
  induction hraw with
  | nil => exact .nil
  | ordinary hc hrest ih => exact .ordinary hc ih
  | @escape body rest hbody hrest ih =>
      refine .escape (Escape.body?_append_of_head? hbody ?_) ih
      simp [List.head?_append, hhead]

theorem head_cases {c : CodePoint} {rest : Text} (hraw : Spelled quote behind (c :: rest)) :
    isOrdinary quote c = true ∨ c = '\\' := by
  cases hraw with
  | ordinary hc => exact .inl hc
  | escape => exact .inr rfl

/-- What is left of a payload from a question mark, a number sign or the like on is spelled
too, though the mark may have been the escaped character of an escape. -/
theorem suffix
    {before rest : Text} {mark : CodePoint}
    (hraw : Spelled quote behind (before ++ mark :: rest))
    (hord : isOrdinary quote mark = true)
    (hhex : Text.isHex mark = false) (hblank : isBlank mark = false) :
    Spelled quote behind (mark :: rest) := by
  generalize hwhole : before ++ mark :: rest = whole at hraw
  induction hraw generalizing before with
  | nil => simp at hwhole
  | @ordinary c tail hc htail ih =>
      cases before with
      | nil =>
          rw [List.nil_append] at hwhole
          rw [hwhole]
          exact .ordinary hc htail
      | cons d before =>
          exact ih (List.cons.inj hwhole).2
  | @escape body tail hbody htail ih =>
      obtain ⟨c, more, rfl, -, hmore, hmoreMem⟩ := Escape.body?_shape hbody
      cases before with
      | nil =>
          have hmark : mark = '\\' := (List.cons.inj hwhole).1
          exact absurd hmark (isOrdinary_iff.mp hord).1
      | cons d before =>
          have hinside : before ++ mark :: rest = c :: (more ++ tail) :=
            (List.cons.inj hwhole).2
          cases before with
          | nil =>
              -- The mark is the escaped character, and no digit, so it is the whole body.
              obtain ⟨rfl, hrest⟩ := List.cons.inj hinside
              rw [hmore hhex, List.nil_append] at hrest
              rw [hrest]
              exact .ordinary hord htail
          | cons d before =>
              have hbehind : before ++ mark :: rest = more ++ tail :=
                (List.cons.inj hinside).2
              rcases List.append_eq_append_iff.mp hbehind with
                ⟨middle, hmoreEq, htailEq⟩ | ⟨middle, hbeforeEq, htailEq⟩
              · cases middle with
                | nil =>
                    have htailMark : [] ++ mark :: rest = tail := by simpa using htailEq
                    exact ih htailMark
                | cons d middle =>
                    -- The mark would be a digit or a blank of the escape.
                    obtain ⟨rfl, -⟩ := List.cons.inj htailEq
                    have hmem : mark ∈ more := by simp [hmoreEq]
                    have hnot := hmoreMem mark hmem
                    simp [hhex, hblank] at hnot
              · exact ih htailEq.symm

theorem head?_ne_of_not_ordinary
    {c : CodePoint} (hraw : Spelled quote behind raw)
    (hbackslash : c ≠ '\\') (hord : isOrdinary quote c = false) :
    raw.head? ≠ some c := by
  intro hhead
  cases raw with
  | nil => simp at hhead
  | cons d rest =>
      obtain rfl : d = c := by simpa using hhead
      rcases hraw.head_cases with hd | hd
      · simp [hd] at hord
      · exact hbackslash hd

/-- In a payload without quotation marks each opening parenthesis is escaped. -/
theorem guarded (hraw : Spelled .none behind raw) : Guarded raw := by
  induction hraw with
  | nil => exact .nil
  | @ordinary c rest hc hrest ih =>
      exact ih.cons (.inl (hrest.head?_ne_of_not_ordinary (by decide) (by decide)))
  | @escape body rest hbody hrest ih =>
      obtain ⟨c, more, rfl, -, -, hmore⟩ := Escape.body?_shape hbody
      have hmoreParen : ∀ d ∈ more, d ≠ '(' := by
        rintro d hd rfl
        exact absurd (hmore _ hd) (by decide)
      have hhead : rest.head? ≠ some (.char '(') :=
        hrest.head?_ne_of_not_ordinary (by decide) (by decide)
      have htail : Guarded (more ++ rest) := (guarded_of_forall hmoreParen).append ih hhead
      have hheadTail : (more ++ rest).head? ≠ some (.char '(') :=
        head?_append_ne hmoreParen hhead
      exact (htail.cons (.inl hheadTail)).cons (.inr rfl)

end Spelled

end Reading

end UrlRebase
