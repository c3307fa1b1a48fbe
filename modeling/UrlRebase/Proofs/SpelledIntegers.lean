import Mathlib
import UrlRebase.SourceMap.Vlq
import UrlRebase.Text.Base64

/-!
# Integers in base 64

A segment spells integers one behind the other.  `SpellsNumber` and `Spells` say by rules
which characters spell which numbers, in the alphabet of base 64; `Misspelt` says what is
wrong with a segment that spells none.  Decoding succeeds exactly on what is spelled and
fails exactly on what is misspelt, and encoding writes a spelling of any integers.
-/

namespace UrlRebase

namespace CodePoint

theorem le_iff_toNat_le {c d : CodePoint} : c ≤ d ↔ c.toNat ≤ d.toNat := Iff.rfl

theorem toNat_half (offset : Fin 0x800) : (half offset).toNat = 0xD800 + offset := rfl

theorem toNat_injective : Function.Injective toNat := by
  have hapart (c : Char) (offset : Fin 0x800) : c.toNat ≠ 0xD800 + offset := by
    have hvalid : c.toNat < 0xD800 ∨ 0xDFFF < c.toNat ∧ c.toNat < 0x110000 := c.valid
    omega
  intro c d h
  cases c with
  | char c =>
      cases d with
      | char d => exact congrArg char (Char.toNat_inj.mp h)
      | half offset => exact absurd h (hapart c offset)
  | half offset =>
      cases d with
      | char d => exact absurd h.symm (hapart d offset)
      | half offset' =>
          rw [toNat_half, toNat_half] at h
          exact congrArg half (Fin.ext (by omega))

end CodePoint

namespace Vlq

/-! ## Digits -/

theorem digit?_digit {n : Nat} (hn : n < 64) : digit? (digit n) = some n := by
  have htable : ∀ n : Fin 64, digit? (digit n) = some n.val := by decide +kernel
  exact htable ⟨n, hn⟩

theorem value?_digit {n : Nat} (hn : n < 64) : Base64.value? (digit n) = some n := by
  have htable : ∀ n : Fin 64, Base64.value? (digit n) = some n.val := by decide +kernel
  exact htable ⟨n, hn⟩

theorem lt_of_digit?_eq_some {c : CodePoint} {n : Nat} (h : digit? c = some n) : n < 64 := by
  unfold digit? at h
  simp only [CodePoint.le_iff_toNat_le, CodePoint.toNat_char, Char.reduceToNat] at h
  grind

theorem eq_of_digit?_eq_some
    {c d : CodePoint} {n : Nat} (hc : digit? c = some n) (hd : digit? d = some n) : c = d := by
  apply CodePoint.toNat_injective
  unfold digit? at hc hd
  simp only [CodePoint.le_iff_toNat_le, CodePoint.toNat_char, Char.reduceToNat] at hc hd
  grind [CodePoint.toNat_char]

/-- The digits are those of the alphabet of base 64. -/
theorem digit?_eq_value? (c : CodePoint) : digit? c = Base64.value? c := by
  apply Option.ext
  intro n
  constructor
  · intro h
    have hn := lt_of_digit?_eq_some h
    rw [eq_of_digit?_eq_some h (digit?_digit hn)]
    exact value?_digit hn
  · intro h
    obtain ⟨hn, hget, -⟩ := List.idxOf?_eq_some_iff.mp h
    obtain ⟨_, hget', -⟩ := List.idxOf?_eq_some_iff.mp (value?_digit hn)
    rw [← hget, hget']
    exact digit?_digit hn

theorem digit_ne_of_digit?_eq_none {c : CodePoint} (hc : digit? c = none) {n : Nat} (hn : n < 64) :
    digit n ≠ c := by
  rintro rfl
  rw [digit?_digit hn] at hc
  simp at hc

theorem digitValues_eq_ok_iff {text : Text} {values : List Nat} :
    digitValues text = .ok values ↔ text.map digit? = values.map some := by
  induction text generalizing values with
  | nil => cases values <;> simp [digitValues]
  | cons c rest ih =>
      unfold digitValues
      cases hc : digit? c with
      | none => cases values <;> simp [hc]
      | some d =>
          cases hrest : digitValues rest with
          | error error =>
              have hnone : ∀ values : List Nat, rest.map digit? ≠ values.map some := by
                intro values hvalues
                rw [ih.mpr hvalues] at hrest
                simp at hrest
              cases values <;> simp [hc, Except.map, hnone]
          | ok others =>
              have hothers := ih.mp hrest
              cases values <;> simp [hc, Except.map, hothers, List.map_inj_right]

/-- The first character that is no digit is told. -/
theorem digitValues_eq_error_iff {text : Text} {error : Malformed} :
    digitValues text = .error error ↔
      ∃ before c behind, text = before ++ c :: behind ∧ error = .digit c ∧
        (∀ b ∈ before, (digit? b).isSome) ∧ digit? c = none := by
  induction text with
  | nil => simp [digitValues]
  | cons c rest ih =>
      unfold digitValues
      cases hc : digit? c with
      | none =>
          constructor
          · intro h
            exact ⟨[], c, rest, rfl, (Except.error.inj h).symm, by simp, hc⟩
          · rintro ⟨before, c', behind, htext, rfl, hbefore, -⟩
            cases before with
            | nil => rw [(List.cons.inj htext).1]
            | cons b before =>
                have hb := hbefore b List.mem_cons_self
                rw [← (List.cons.inj htext).1, hc] at hb
                simp at hb
      | some d =>
          have hmap : (digitValues rest).map (d :: ·) = .error error ↔
              digitValues rest = .error error := by
            cases digitValues rest <;> simp [Except.map]
          rw [hmap, ih]
          constructor
          · rintro ⟨before, c', behind, rfl, rfl, hbefore, hc'⟩
            refine ⟨c :: before, c', behind, rfl, rfl, ?_, hc'⟩
            simpa [hc] using hbefore
          · rintro ⟨before, c', behind, htext, rfl, hbefore, hc'⟩
            cases before with
            | nil =>
                rw [← (List.cons.inj htext).1, hc] at hc'
                simp at hc'
            | cons b before =>
                exact ⟨before, c', behind, (List.cons.inj htext).2, rfl,
                  fun d hd => hbefore d (List.mem_cons_of_mem b hd), hc'⟩

theorem exists_digits_of_isSome {text : Text} (htext : ∀ c ∈ text, (digit? c).isSome) :
    ∃ values : List Nat, text.map digit? = values.map some := by
  refine ⟨text.map fun c => (digit? c).getD 0, ?_⟩
  rw [List.map_map]
  apply List.map_congr_left
  intro c hc
  obtain ⟨d, hd⟩ := Option.isSome_iff_exists.mp (htext c hc)
  simp [hd]

/-! ## Numbers and integers -/

/-- Which number the characters of its digits spell, the lowest digit first.  All digits but
the last have 32 added. -/
inductive SpellsNumber : Text → Nat → Prop
  | last {c : CodePoint} {d : Nat} (hdigit : Base64.value? c = some d) (hlast : d < 32) :
      SpellsNumber [c] d
  | more {c : CodePoint} {d : Nat} {rest : Text} {n : Nat}
      (hdigit : Base64.value? c = some d) (hmore : 32 ≤ d) (hrest : SpellsNumber rest n) :
      SpellsNumber (c :: rest) (d - 32 + 32 * n)

/-- Which integers a segment spells: numbers one behind the other, each with the sign of its
integer in the lowest bit. -/
def Spells (segment : Text) (values : List Int) : Prop :=
  ∃ (parts : List Text) (numbers : List Nat), List.Forall₂ SpellsNumber parts numbers ∧
    segment = parts.flatten ∧ values = numbers.map unfold

/-- What is wrong with a segment that spells no integers: the first character that is no
digit, or a number that the segment ends within. -/
inductive Misspelt : Text → Malformed → Prop
  | digit {before behind : Text} {c : CodePoint}
      (hbefore : ∀ b ∈ before, (Base64.value? b).isSome) (hc : Base64.value? c = none) :
      Misspelt (before ++ c :: behind) (.digit c)
  | truncated {before : Text} {c : CodePoint} {d : Nat}
      (hbefore : ∀ b ∈ before, (Base64.value? b).isSome) (hc : Base64.value? c = some d)
      (hmore : 32 ≤ d) :
      Misspelt (before ++ [c]) (.truncated (before ++ [c]))

theorem SpellsNumber.exists_digits {number : Text} {n : Nat} (h : SpellsNumber number n) :
    ∃ digits : List Nat, number.map digit? = digits.map some ∧
      ∀ rest, numbers? (digits ++ rest) = (numbers? rest).map (n :: ·) := by
  induction h with
  | @last c d hdigit hlast =>
      rw [← digit?_eq_value?] at hdigit
      exact ⟨[d], by simp [hdigit], fun rest => by simp [numbers?, hlast]⟩
  | @more c d rest n hdigit hmore hrest ih =>
      rw [← digit?_eq_value?] at hdigit
      obtain ⟨digits, hdigits, hnumbers⟩ := ih
      refine ⟨d :: digits, by simp [hdigit, hdigits], ?_⟩
      intro behind
      rw [List.cons_append, numbers?, if_neg (by omega), hnumbers]
      cases numbers? behind <;> rfl

theorem exists_parts_of_numbers?
    {text : Text} {digits numbers : List Nat} (htext : text.map digit? = digits.map some)
    (hnumbers : numbers? digits = some numbers) :
    ∃ parts : List Text, List.Forall₂ SpellsNumber parts numbers ∧ text = parts.flatten := by
  induction digits generalizing text numbers with
  | nil =>
      obtain rfl : text = [] := by simpa using htext
      obtain rfl : [] = numbers := by simpa [numbers?] using hnumbers
      exact ⟨[], .nil, rfl⟩
  | cons d digits ih =>
      obtain ⟨c, rest, rfl, hc, hrest⟩ := List.map_eq_cons_iff.mp htext
      rw [digit?_eq_value?] at hc
      unfold numbers? at hnumbers
      split at hnumbers
      · rename_i hlast
        obtain ⟨others, hothers, rfl⟩ := Option.map_eq_some_iff.mp hnumbers
        obtain ⟨parts, hparts, rfl⟩ := ih hrest hothers
        exact ⟨[c] :: parts, .cons (.last hc hlast) hparts, rfl⟩
      · rename_i hmore
        split at hnumbers
        · rename_i n others hothers
          obtain rfl := Option.some.inj hnumbers
          obtain ⟨parts, hparts, rfl⟩ := ih hrest hothers
          cases hparts with
          | @cons part _ parts _ hpart hparts =>
              exact ⟨(c :: part) :: parts, .cons (.more hc (by omega) hpart) hparts, rfl⟩
        · simp at hnumbers

theorem numbers?_cons_ne_some_nil (d : Nat) (rest : List Nat) :
    numbers? (d :: rest) ≠ some [] := by
  unfold numbers?
  split
  · cases numbers? rest <;> simp
  · split <;> simp

/-- Digits end within a number if the last of them is to be followed by another. -/
theorem numbers?_eq_none_iff {digits : List Nat} :
    numbers? digits = none ↔ ∃ d, digits.getLast? = some d ∧ 32 ≤ d := by
  induction digits with
  | nil => simp [numbers?]
  | cons d digits ih =>
      cases digits with
      | nil =>
          by_cases hd : d < 32
          · simp [numbers?, hd]
          · simp [numbers?, hd, Nat.not_lt.mp hd]
      | cons d' rest =>
          have hne := numbers?_cons_ne_some_nil d' rest
          rw [List.getLast?_cons_cons, ← ih, numbers?]
          cases hrest : numbers? (d' :: rest) with
          | none => simp
          | some numbers =>
              cases numbers with
              | nil => exact absurd hrest hne
              | cons n others => split <;> simp

theorem Spells.exists_numbers {segment : Text} {values : List Int} (h : Spells segment values) :
    ∃ digits numbers : List Nat, segment.map digit? = digits.map some ∧
      numbers? digits = some numbers ∧ numbers.map unfold = values := by
  obtain ⟨parts, numbers, hparts, rfl, rfl⟩ := h
  suffices hdigits : ∃ digits : List Nat, parts.flatten.map digit? = digits.map some ∧
      numbers? digits = some numbers by
    obtain ⟨digits, hdigits, hnumbers⟩ := hdigits
    exact ⟨digits, numbers, hdigits, hnumbers, rfl⟩
  induction hparts with
  | nil => exact ⟨[], rfl, rfl⟩
  | cons hpart _ ih =>
      obtain ⟨others, hothers, hnumbers⟩ := ih
      obtain ⟨digits, hdigits, happend⟩ := hpart.exists_digits
      exact ⟨digits ++ others, by simp [hdigits, hothers], by simp [happend, hnumbers]⟩

/-- Exactly the spelled integers are decoded. -/
theorem decode_eq_ok_iff {segment : Text} {values : List Int} :
    decode segment = .ok values ↔ Spells segment values := by
  unfold decode
  constructor
  · intro h
    split at h
    · simp at h
    · rename_i digits hdigits
      split at h
      · simp at h
      · rename_i numbers hnumbers
        obtain rfl := Except.ok.inj h
        obtain ⟨parts, hparts, hsegment⟩ :=
          exists_parts_of_numbers? (digitValues_eq_ok_iff.mp hdigits) hnumbers
        exact ⟨parts, numbers, hparts, hsegment, rfl⟩
  · intro h
    obtain ⟨digits, numbers, hdigits, hnumbers, rfl⟩ := h.exists_numbers
    simp only [digitValues_eq_ok_iff.mpr hdigits, hnumbers]

/-- A segment that is misspelt, and no other, is refused, for what is wrong with it. -/
theorem decode_eq_error_iff {segment : Text} {error : Malformed} :
    decode segment = .error error ↔ Misspelt segment error := by
  have hvalue : Base64.value? = digit? := (funext digit?_eq_value?).symm
  constructor
  · intro h
    unfold decode at h
    split at h
    · rename_i cause hcause
      obtain rfl := Except.error.inj h
      obtain ⟨before, c, behind, rfl, rfl, hbefore, hc⟩ := digitValues_eq_error_iff.mp hcause
      rw [← hvalue] at hbefore hc
      exact .digit hbefore hc
    · rename_i digits hdigits
      split at h
      · rename_i hnumbers
        obtain rfl := Except.error.inj h
        obtain ⟨d, hlast, hmore⟩ := numbers?_eq_none_iff.mp hnumbers
        obtain ⟨digits, rfl⟩ := List.getLast?_eq_some_iff.mp hlast
        have hsegment := digitValues_eq_ok_iff.mp hdigits
        rw [List.map_append] at hsegment
        obtain ⟨before, last, rfl, hbefore, hlast⟩ := List.map_eq_append_iff.mp hsegment
        obtain ⟨c, rest, rfl, hc, hrest⟩ := List.map_eq_cons_iff.mp hlast
        obtain rfl : rest = [] := by simpa using hrest
        rw [← hvalue] at hbefore hc
        refine .truncated ?_ hc hmore
        intro b hb
        have hmem := List.mem_map_of_mem (f := Base64.value?) hb
        rw [hbefore] at hmem
        obtain ⟨d, -, hd⟩ := List.mem_map.mp hmem
        rw [← hd, Option.isSome_some]
      · simp at h
  · intro h
    unfold decode
    cases h with
    | @digit before behind c hbefore hc =>
        rw [hvalue] at hbefore hc
        rw [digitValues_eq_error_iff.mpr ⟨before, c, behind, rfl, rfl, hbefore, hc⟩]
    | @truncated before c d hbefore hc hmore =>
        rw [hvalue] at hbefore hc
        obtain ⟨digits, hdigits⟩ := exists_digits_of_isSome hbefore
        have hall : (before ++ [c]).map digit? = (digits ++ [d]).map some := by
          simp [hdigits, hc]
        simp only [digitValues_eq_ok_iff.mpr hall,
          numbers?_eq_none_iff.mpr ⟨d, List.getLast?_concat, hmore⟩]

theorem spells_or_misspelt (segment : Text) :
    (∃ values, Spells segment values) ∨ ∃ error, Misspelt segment error := by
  cases h : decode segment with
  | ok values => exact .inl ⟨values, decode_eq_ok_iff.mp h⟩
  | error error => exact .inr ⟨error, decode_eq_error_iff.mp h⟩

theorem Spells.unique
    {segment : Text} {values values' : List Int} (h : Spells segment values)
    (h' : Spells segment values') : values = values' :=
  Except.ok.inj ((decode_eq_ok_iff.mpr h).symm.trans (decode_eq_ok_iff.mpr h'))

/-! ## Encoding -/

theorem unfold_fold (value : Int) : unfold (fold value) = value := by
  unfold unfold fold
  split <;> split <;> omega

theorem spellsNumber_digits (n : Nat) : SpellsNumber ((digits n).map digit) n := by
  fun_induction digits n with
  | case1 n hn => exact .last (value?_digit (by omega)) hn
  | case2 n hn ih =>
      have hdigit : Base64.value? (digit (n % 32 + 32)) = some (n % 32 + 32) :=
        value?_digit (by omega)
      have hmore := SpellsNumber.more hdigit (by omega) ih
      rwa [show n % 32 + 32 - 32 + 32 * (n / 32) = n by omega] at hmore

/-- Integers are encoded as a spelling of theirs. -/
theorem spells_encode (values : List Int) : Spells (encode values) values := by
  refine ⟨values.map fun value => (digits (fold value)).map digit, values.map fold, ?_, ?_, ?_⟩
  · rw [List.forall₂_map_left_iff, List.forall₂_map_right_iff, List.forall₂_same]
    exact fun value _ => spellsNumber_digits (fold value)
  · rw [encode, List.flatMap_def]
  · simp [Function.comp_def, unfold_fold]

theorem decode_encode (values : List Int) : decode (encode values) = .ok values :=
  decode_eq_ok_iff.mpr (spells_encode values)

end Vlq

end UrlRebase
