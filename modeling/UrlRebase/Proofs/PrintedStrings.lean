import UrlRebase.Json.Parser
import UrlRebase.Json.Printer

/-!
# Printed strings

A JSON string that is printed reads back as the text, but two lone halves next to each other
that could be a surrogate pair are one: their escapes are read as the character that they
make together.
-/

namespace UrlRebase

/-! ## Pairs of halves -/

namespace Text

/-- The text with every high half that is followed by a low one joined with it. -/
def paired : Text → Text
  | .half high :: .half low :: rest =>
      if high.val < 0x400 ∧ 0x400 ≤ low.val then
        CodePoint.ofNat (0x10000 + high * 0x400 + (low - 0x400)) :: paired rest
      else .half high :: paired (.half low :: rest)
  | c :: rest => c :: paired rest
  | [] => []

theorem paired_of_no_half {text : Text} (h : ∀ offset, CodePoint.half offset ∉ text) :
    paired text = text := by
  induction text with
  | nil => rfl
  | cons c rest ih =>
      have hrest := ih fun offset hmem => h offset (List.mem_cons_of_mem c hmem)
      cases c with
      | half offset => exact absurd List.mem_cons_self (h offset)
      | char c =>
          rw [paired, hrest]
          exact fun _ _ _ hhalf => by simp at hhalf

end Text

namespace CodePoint

theorem toNat_lt (c : CodePoint) : c.toNat < 0x110000 := by
  cases c with
  | half offset =>
      simp only [toNat]
      omega
  | char c =>
      have hvalid : c.toNat.isValidChar := c.valid
      unfold Nat.isValidChar at hvalid
      simp only [toNat]
      omega

theorem exists_half {c : CodePoint} (hlow : 0xD800 ≤ c.toNat) (hhigh : c.toNat ≤ 0xDFFF) :
    ∃ offset, c = .half offset := by
  cases c with
  | half offset => exact ⟨offset, rfl⟩
  | char c =>
      have hvalid : c.toNat.isValidChar := c.valid
      unfold Nat.isValidChar at hvalid
      simp only [toNat] at hlow hhigh
      omega

end CodePoint

/-! ## Digits -/

namespace Json

def hexDigit (n : Nat) : CodePoint :=
  .char (Nat.digitChar n)

theorem hexDigit?_hexDigit : ∀ n < 16, hexDigit? (hexDigit n) = some n := by
  decide

theorem hex_one {n : Nat} (hn : n < 16) : Text.hex 1 n = [hexDigit n] := by
  simp [Text.hex, Nat.toDigits_of_lt_base hn, hexDigit]

theorem hex_succ {width : Nat} (hwidth : width ≠ 0) (n : Nat) :
    Text.hex (width + 1) n = Text.hex width (n / 16) ++ [hexDigit (n % 16)] := by
  unfold Text.hex
  by_cases hn : n < 16
  · have hzeros : List.replicate (width - 1) (CodePoint.char '0') ++ [CodePoint.char '0'] =
        List.replicate width (CodePoint.char '0') := by
      rw [← List.replicate_succ', Nat.sub_add_cancel (Nat.pos_of_ne_zero hwidth)]
    rw [Nat.toDigits_of_lt_base hn, Nat.div_eq_of_lt hn, Nat.mod_eq_of_lt hn, Nat.toDigits_zero]
    simp only [Text.ofChars_cons, Text.ofChars_nil, List.length_singleton, hzeros,
      Nat.add_sub_cancel]
    rfl
  · rw [Nat.toDigits_of_base_le (by decide) (Nat.le_of_not_lt hn)]
    simp only [Text.ofChars, List.map_append, List.length_append, List.length_map,
      List.map_cons, List.map_nil, List.length_singleton, Nat.add_sub_add_right,
      List.append_assoc]
    rfl

/-- A number below `2 ^ 16` has four hexadecimal digits. -/
theorem hex_four {n : Nat} (hn : n < 0x10000) :
    Text.hex 4 n =
      [hexDigit (n / 16 / 16 / 16), hexDigit (n / 16 / 16 % 16), hexDigit (n / 16 % 16),
        hexDigit (n % 16)] := by
  rw [hex_succ (by decide), hex_succ (by decide), hex_succ (by decide), hex_one (by omega)]
  rfl

theorem hexUnit?_hex {n : Nat} (hn : n < 0x10000) :
    ∃ a b c d, Text.hex 4 n = [a, b, c, d] ∧ hexUnit? a b c d = some n := by
  refine ⟨_, _, _, _, hex_four hn, ?_⟩
  unfold hexUnit?
  rw [hexDigit?_hexDigit _ (by omega), hexDigit?_hexDigit _ (by omega),
    hexDigit?_hexDigit _ (by omega), hexDigit?_hexDigit _ (by omega)]
  simp only [Option.bind_eq_bind, Option.bind_some, Option.pure_def, Option.some.injEq]
  omega

/-! ## Characters -/

theorem stringBody?_unit
    {a b c d : CodePoint} {unit : Nat} (hunit : hexUnit? a b c d = some unit) {rest : Text}
    (hpartner : partner? unit rest = none) :
    stringBody? ('\\' :: 'u' :: a :: b :: c :: d :: rest) =
      (stringBody? rest).map fun (value, left) => (CodePoint.ofNat unit :: value, left) := by
  rw [stringBody?]
  simp only [hunit, hpartner]

theorem stringBody?_pair
    {a b c d a' b' c' d' : CodePoint} {high low : Nat} (hhigh : hexUnit? a b c d = some high)
    (hlow : hexUnit? a' b' c' d' = some low) (hrange : 0xD800 ≤ high ∧ high ≤ 0xDBFF)
    (hrange' : 0xDC00 ≤ low ∧ low ≤ 0xDFFF) (rest : Text) :
    stringBody? ('\\' :: 'u' :: a :: b :: c :: d ::
        '\\' :: 'u' :: a' :: b' :: c' :: d' :: rest) =
      (stringBody? rest).map fun (value, left) =>
        (CodePoint.ofNat (0x10000 + (high - 0xD800) * 0x400 + (low - 0xDC00)) :: value, left) := by
  have hpartner : partner? high ('\\' :: 'u' :: a' :: b' :: c' :: d' :: rest) = some low := by
    simp only [partner?, hlow]
    rw [if_pos ⟨hrange.1, hrange.2, hrange'.1, hrange'.2⟩]
  rw [stringBody?]
  simp only [hhigh, hpartner]
  rfl

theorem partner?_of_not_high {unit : Nat} (hunit : ¬(0xD800 ≤ unit ∧ unit ≤ 0xDBFF)) (text : Text) :
    partner? unit text = none := by
  unfold partner?
  split
  · split
    · rw [if_neg fun h => hunit ⟨h.1, h.2.1⟩]
    · rfl
  · rfl

theorem partner?_unit
    {n : Nat} (hn : n < 0x10000) (hlow : ¬(0xDC00 ≤ n ∧ n ≤ 0xDFFF)) (unit : Nat) (rest : Text) :
    partner? unit ('\\' :: 'u' :: (Text.hex 4 n ++ rest)) = none := by
  obtain ⟨a, b, c, d, hhex, hunit⟩ := hexUnit?_hex hn
  rw [hhex]
  simp only [List.cons_append, List.nil_append, partner?, hunit]
  rw [if_neg fun h => hlow h.2.2]

/-- How a character is printed: by a letter, as it is, as one unit or as two. -/
theorem printChar_cases (c : CodePoint) :
    (∃ letter, letter ≠ CodePoint.char 'u' ∧ shortEscape? letter = some c ∧
        printChar c = [CodePoint.char '\\', letter]) ∨
      (0x20 ≤ c.toNat ∧ c.toNat < 0x7F ∧ c ≠ '"' ∧ c ≠ '\\' ∧ printChar c = [c]) ∨
      (c.toNat < 0x10000 ∧
        printChar c = CodePoint.char '\\' :: CodePoint.char 'u' :: Text.hex 4 c.toNat) ∨
      (0x10000 ≤ c.toNat ∧ printChar c =
        CodePoint.char '\\' :: CodePoint.char 'u' ::
          (Text.hex 4 (0xD800 + (c.toNat - 0x10000) / 0x400) ++
            CodePoint.char '\\' :: CodePoint.char 'u' ::
              Text.hex 4 (0xDC00 + (c.toNat - 0x10000) % 0x400))) := by
  have hletter (letter : CodePoint) (hne : letter ≠ 'u') (hshort : shortEscape? letter = some c)
      (hprint : printChar c = [CodePoint.char '\\', letter]) :
      ∃ letter, letter ≠ CodePoint.char 'u' ∧ shortEscape? letter = some c ∧
        printChar c = [CodePoint.char '\\', letter] := ⟨letter, hne, hshort, hprint⟩
  by_cases hquote : c = '"'
  · subst hquote
    exact .inl (hletter '"' (by decide) rfl rfl)
  by_cases hslash : c = '\\'
  · subst hslash
    exact .inl (hletter '\\' (by decide) rfl rfl)
  by_cases hnewline : c = '\n'
  · subst hnewline
    exact .inl (hletter 'n' (by decide) rfl rfl)
  by_cases hreturn : c = '\r'
  · subst hreturn
    exact .inl (hletter 'r' (by decide) rfl rfl)
  by_cases htab : c = '\t'
  · subst htab
    exact .inl (hletter 't' (by decide) rfl rfl)
  by_cases hfeed : c = '\x0c'
  · subst hfeed
    exact .inl (hletter 'f' (by decide) rfl rfl)
  by_cases hback : c = '\x08'
  · subst hback
    exact .inl (hletter 'b' (by decide) rfl rfl)
  right
  unfold printChar
  rw [if_neg hquote, if_neg hslash, if_neg hnewline, if_neg hreturn, if_neg htab, if_neg hfeed,
    if_neg hback]
  by_cases hplain : 0x20 ≤ c.toNat ∧ c.toNat < 0x7F
  · exact .inl ⟨hplain.1, hplain.2, hquote, hslash, if_pos hplain⟩
  by_cases hunit : c.toNat < 0x10000
  · exact .inr (.inl ⟨hunit, by rw [if_neg hplain, if_pos hunit]⟩)
  · refine .inr (.inr ⟨Nat.le_of_not_lt hunit, ?_⟩)
    rw [if_neg hplain, if_neg hunit]
    simp only [List.append_assoc]
    rfl

/-- Whether a character is the second half of a surrogate pair. -/
def IsLow (c : CodePoint) : Prop :=
  0xDC00 ≤ c.toNat ∧ c.toNat ≤ 0xDFFF

theorem partner?_printChar {c : CodePoint} (hc : ¬IsLow c) (unit : Nat) (rest : Text) :
    partner? unit (printChar c ++ rest) = none := by
  rcases printChar_cases c with
    ⟨letter, hletter, -, hprint⟩ | ⟨-, -, -, hslash, hprint⟩ | ⟨hunit, hprint⟩ | ⟨hpair, hprint⟩
  · rw [hprint]
    unfold partner?
    split
    · rename_i heq
      exact absurd (List.cons.inj (List.cons.inj heq).2).1 hletter
    · rfl
  · rw [hprint]
    unfold partner?
    split
    · rename_i heq
      exact absurd (List.cons.inj heq).1 hslash
    · rfl
  · rw [hprint]
    exact partner?_unit hunit hc unit rest
  · rw [hprint, List.cons_append, List.cons_append, List.append_assoc]
    have hlt := c.toNat_lt
    exact partner?_unit (by omega) (by omega) unit _

theorem stringBody?_printChar
    {c : CodePoint} {rest : Text} (hpartner : partner? c.toNat rest = none) :
    stringBody? (printChar c ++ rest) =
      (stringBody? rest).map fun (value, left) => (c :: value, left) := by
  rcases printChar_cases c with
    ⟨letter, hletter, hshort, hprint⟩ | ⟨hlow, hhigh, hquote, hslash, hprint⟩ |
      ⟨hunit, hprint⟩ | ⟨hpair, hprint⟩
  · rw [hprint, List.cons_append, List.cons_append, List.nil_append, stringBody?]
    · simp only [hshort]
    · exact fun _ _ _ _ _ hu => absurd hu hletter
  · rw [hprint, List.cons_append, List.nil_append, stringBody?]
    · rw [if_neg]
      simp only [not_or]
      exact ⟨by omega, hslash⟩
    · exact hquote
    · exact fun _ _ _ _ _ h => absurd h hslash
    · exact fun _ _ h => absurd h hslash
  · obtain ⟨a, b, d, e, hhex, hvalue⟩ := hexUnit?_hex hunit
    rw [hprint, hhex]
    simp only [List.cons_append, List.nil_append]
    rw [stringBody?_unit hvalue hpartner, CodePoint.ofNat_toNat]
  · have hlt := c.toNat_lt
    obtain ⟨a, b, d, e, hhex, hvalue⟩ :=
      hexUnit?_hex (n := 0xD800 + (c.toNat - 0x10000) / 0x400) (by omega)
    obtain ⟨a', b', d', e', hhex', hvalue'⟩ :=
      hexUnit?_hex (n := 0xDC00 + (c.toNat - 0x10000) % 0x400) (by omega)
    rw [hprint, hhex, hhex']
    simp only [List.cons_append, List.nil_append]
    rw [stringBody?_pair hvalue hvalue' (by omega) (by omega)]
    have hpoint : 0x10000 + (0xD800 + (c.toNat - 0x10000) / 0x400 - 0xD800) * 0x400 +
        (0xDC00 + (c.toNat - 0x10000) % 0x400 - 0xDC00) = c.toNat := by omega
    rw [hpoint, CodePoint.ofNat_toNat]

/-! ## Strings -/

theorem printChar_half (offset : Fin 0x800) :
    printChar (.half offset) =
      CodePoint.char '\\' :: CodePoint.char 'u' :: Text.hex 4 (0xD800 + offset) := by
  have hunit : (CodePoint.half offset).toNat < 0x10000 := by
    simp only [CodePoint.toNat]
    omega
  have hplain : ¬(CodePoint.half offset).toNat < 0x7F := by
    simp only [CodePoint.toNat]
    omega
  simp only [printChar, reduceCtorEq, if_false, if_pos hunit, hplain, and_false]
  rfl

/-- No pair begins before a text that does not go on with the second half of one. -/
theorem partner?_flatMap_printChar
    {unit : Nat} {value : Text}
    (hhead : ∀ c, value.head? = some c → 0xD800 ≤ unit ∧ unit ≤ 0xDBFF → ¬IsLow c) (rest : Text) :
    partner? unit (value.flatMap printChar ++ CodePoint.char '"' :: rest) = none := by
  by_cases hunit : 0xD800 ≤ unit ∧ unit ≤ 0xDBFF
  · cases value with
    | nil =>
        unfold partner?
        split
        · rename_i heq
          exact absurd (List.cons.inj heq).1 (by decide)
        · rfl
    | cons c value =>
        rw [List.flatMap_cons, List.append_assoc]
        exact partner?_printChar (hhead c rfl hunit) unit _
  · exact partner?_of_not_high hunit _

/-- A printed text reads back with its halves paired. -/
theorem stringBody?_flatMap_printChar (value rest : Text) :
    stringBody? (value.flatMap printChar ++ CodePoint.char '"' :: rest) =
      some (Text.paired value, rest) := by
  fun_induction Text.paired value with
  | case1 high low behind hpair ih =>
      obtain ⟨a, b, c, d, hhex, hunit⟩ := hexUnit?_hex (n := 0xD800 + high.val) (by omega)
      obtain ⟨a', b', c', d', hhex', hunit'⟩ := hexUnit?_hex (n := 0xD800 + low.val) (by omega)
      rw [List.flatMap_cons, List.flatMap_cons, printChar_half, printChar_half, hhex, hhex']
      simp only [List.cons_append, List.nil_append]
      rw [stringBody?_pair hunit hunit' (by omega) (by omega), ih, Option.map_some,
        Nat.add_sub_cancel_left, show 0xD800 + low.val - 0xDC00 = low.val - 0x400 by omega]
  | case2 high low behind hpair ih =>
      have hapart : ∀ c, (CodePoint.half low :: behind).head? = some c →
          0xD800 ≤ (CodePoint.half high).toNat ∧ (CodePoint.half high).toNat ≤ 0xDBFF →
            ¬IsLow c := by
        rintro c ⟨rfl⟩ hunit hlow
        simp only [IsLow, CodePoint.toNat] at hlow hunit
        omega
      have hpartner := partner?_flatMap_printChar hapart rest
      rw [List.flatMap_cons, List.append_assoc, stringBody?_printChar hpartner, ih]
      rfl
  | case3 c behind hother ih =>
      have hapart : ∀ d, behind.head? = some d → 0xD800 ≤ c.toNat ∧ c.toNat ≤ 0xDBFF →
          ¬IsLow d := by
        intro d hd hunit hlow
        obtain ⟨high, rfl⟩ := CodePoint.exists_half hunit.1 (by omega)
        obtain ⟨low, rfl⟩ := CodePoint.exists_half (Nat.le_trans (by decide) hlow.1) hlow.2
        obtain ⟨others, rfl⟩ := List.head?_eq_some_iff.mp hd
        exact hother high low others rfl rfl
      have hpartner := partner?_flatMap_printChar hapart rest
      rw [List.flatMap_cons, List.append_assoc, stringBody?_printChar hpartner, ih]
      rfl
  | case4 => rw [List.flatMap_nil, List.nil_append, stringBody?]

theorem printString_append (value rest : Text) :
    printString value ++ rest =
      CodePoint.char '"' :: (value.flatMap printChar ++ CodePoint.char '"' :: rest) := by
  rw [printString, List.cons_append, List.append_assoc]
  rfl

theorem scalar?_printString (value rest : Text) :
    scalar? (printString value ++ rest) = some (.string (Text.paired value), rest) := by
  rw [printString_append]
  exact congrArg (Option.map _) (stringBody?_flatMap_printChar value rest)

end Json

end UrlRebase
