import UrlRebase.Proofs.EditedText
import UrlRebase.Rebase.Payload

/-!
# Rebased payloads are well-formed

An escaped text is a sequence of units, whatever units come behind it.  The query and the
fragment of a payload are cut out of it in front of a mark that is no part of a longer
unit, so a path with them behind it is again a payload.
-/

namespace UrlRebase

namespace Escape

open Reading

variable {quote : Quote} {behind : Text}

theorem toNat_lt_of_isControl {c : CodePoint} (hcontrol : isControl c = true) :
    c.toNat < 0x80 := by
  simp only [isControl, Bool.or_eq_true, decide_eq_true_eq] at hcontrol
  rcases hcontrol with hlt | rfl
  · omega
  · decide

theorem hex_shape :
    ∀ n < 0x80, Text.hex 1 n ≠ [] ∧ (Text.hex 1 n).length ≤ 6 ∧
      ∀ c ∈ Text.hex 1 n, Text.isHex c = true := by
  decide +kernel

theorem hexDigits_append_space
    {digits : Text} (hlength : digits.length ≤ 6) (hhex : ∀ c ∈ digits, Text.isHex c = true)
    (rest : Text) :
    hexDigits (digits ++ " ".text ++ rest) = digits := by
  have hstop : (" ".text ++ rest).take (6 - digits.length) = [] ∨
      ∃ behind, (" ".text ++ rest).take (6 - digits.length) = CodePoint.char ' ' :: behind := by
    cases 6 - digits.length with
    | zero => exact .inl rfl
    | succ room => exact .inr ⟨_, rfl⟩
  rw [hexDigits, List.append_assoc, List.take_append, List.take_of_length_le hlength,
    List.takeWhile_append_of_pos hhex]
  rcases hstop with hstop | ⟨behind, hstop⟩
  · rw [hstop, List.takeWhile_nil, List.append_nil]
  · rw [hstop, List.takeWhile_cons_of_neg (by decide), List.append_nil]

/-- A few hexadecimal digits and a space are all that an escape takes. -/
theorem body?_hex
    {digits : Text} (hne : digits ≠ []) (hlength : digits.length ≤ 6)
    (hhex : ∀ c ∈ digits, Text.isHex c = true) (rest : Text) :
    body? (digits ++ " ".text ++ rest) = some (digits ++ " ".text) := by
  obtain ⟨c, more, rfl⟩ := List.exists_cons_of_ne_nil hne
  have hdigits := hexDigits_append_space hlength hhex rest
  refine body?_eq_some_iff.mpr ⟨c, more ++ " ".text ++ rest, rfl, ?_, .inr ⟨?_, ?_⟩⟩
  · exact not_isBreak (.inl (hhex c List.mem_cons_self))
  · exact hhex c List.mem_cons_self
  · rw [hdigits, List.append_assoc, List.drop_left]
    rfl

theorem isSpecial_shape
    {c : CodePoint} (hspecial : isSpecial quote c = true) :
    isBreak c = false ∧ Text.isHex c = false := by
  have hcases : c = ' ' ∨ c = '(' ∨ c = ')' ∨ c = '\'' ∨ c = '"' ∨ c = '\\' := by
    cases quote <;> simp [isSpecial] at hspecial <;> tauto
  rcases hcases with rfl | rfl | rfl | rfl | rfl | rfl <;> decide

theorem isOrdinary_of_unescaped
    {c : CodePoint} (hcontrol : isControl c = false) (hspecial : isSpecial quote c = false) :
    isOrdinary quote c = true := by
  have hne {d : CodePoint} (hd : isControl d = true) : c ≠ d := by
    rintro rfl
    simp [hcontrol] at hd
  have htab : c ≠ '\t' := hne (by decide)
  have hfeed : c ≠ '\x0c' := hne (by decide)
  have hreturn : c ≠ '\r' := hne (by decide)
  have hnewline : c ≠ '\n' := hne (by decide)
  cases quote <;> simp_all [isSpecial, isOrdinary, isBlank, isBreak]

/-- The spelling of a character is one unit. -/
theorem spelled_spell
    {rest : Text} (c : CodePoint) (hrest : Spelled quote behind rest) :
    Spelled quote behind (spell quote c ++ rest) := by
  unfold spell
  by_cases hcontrol : isControl c = true
  · obtain ⟨hne, hlength, hhex⟩ := hex_shape c.toNat (toNat_lt_of_isControl hcontrol)
    have hbody := body?_hex hne hlength hhex (rest ++ behind)
    rw [if_pos hcontrol]
    have hspelled : Spelled quote behind
        ('\\' :: (Text.hex 1 c.toNat ++ " ".text ++ rest)) := .escape hbody hrest
    rw [List.append_assoc, List.append_assoc]
    rwa [List.append_assoc] at hspelled
  · rw [if_neg hcontrol]
    by_cases hspecial : isSpecial quote c = true
    · obtain ⟨hbreak, hhex⟩ := isSpecial_shape hspecial
      have hbody : body? ([c] ++ (rest ++ behind)) = some [c] :=
        body?_eq_some_iff.mpr ⟨c, rest ++ behind, rfl, hbreak, .inl ⟨hhex, rfl⟩⟩
      rw [if_pos hspecial]
      exact .escape hbody hrest
    · rw [if_neg hspecial]
      refine .ordinary (isOrdinary_of_unescaped ?_ ?_) hrest
      · exact Bool.eq_false_of_not_eq_true hcontrol
      · exact Bool.eq_false_of_not_eq_true hspecial

theorem spelled_escape
    {rest : Text} (value : Text) (hrest : Spelled quote behind rest) :
    Spelled quote behind (escape quote value ++ rest) := by
  induction value with
  | nil => exact hrest
  | cons c value ih =>
      have hspelled := spelled_spell c ih
      rwa [← List.append_assoc] at hspelled

theorem escape_ne_nil {value : Text} (hvalue : value ≠ []) : escape quote value ≠ [] := by
  obtain ⟨c, rest, rfl⟩ := List.exists_cons_of_ne_nil hvalue
  have hspell : spell quote c ≠ [] := by
    unfold spell
    split
    · simp [String.text]
    · split <;> simp
  intro hnil
  exact hspell (List.append_eq_nil_iff.mp hnil).1

end Escape

/-! ## Queries and fragments -/

theorem Text.cut_snd_eq (separator : CodePoint) (text : Text) :
    (text.cut separator).2 = [] ∨ ∃ rest, (text.cut separator).2 = separator :: rest := by
  unfold cut
  cases hdrop : text.dropWhile (· ≠ separator) with
  | nil => exact .inl rfl
  | cons c rest =>
      have hc := List.head?_dropWhile_not (· ≠ separator) text
      rw [hdrop] at hc
      simp at hc
      exact .inr ⟨rest, by simp [hc]⟩

namespace Payload

open Reading

variable {quote : Quote} {behind raw : Text}

theorem spelled_of_mark
    {before rest : Text} {mark : CodePoint} (hmark : mark = '?' ∨ mark = '#')
    (hraw : Spelled quote behind (before ++ mark :: rest)) :
    Spelled quote behind (mark :: rest) := by
  rcases hmark with rfl | rfl
  · exact hraw.suffix (by cases quote <;> decide) (by decide) (by decide)
  · exact hraw.suffix (by cases quote <;> decide) (by decide) (by decide)

theorem spelled_fragment (hraw : Spelled quote behind raw) :
    Spelled quote behind (ofText raw).fragment := by
  have hfragment : (ofText raw).fragment = (raw.cut '#').2 := rfl
  have hcut := Text.cut_append '#' raw
  rcases Text.cut_snd_eq '#' raw with hnil | ⟨rest, hrest⟩
  · rw [hfragment, hnil]
    exact .nil
  · rw [hrest] at hcut
    rw [← hcut] at hraw
    rw [hfragment, hrest]
    exact spelled_of_mark (.inr rfl) hraw

theorem spelled_query_fragment (hraw : Spelled quote behind raw) :
    Spelled quote behind ((ofText raw).query ++ (ofText raw).fragment) := by
  have hquery : (ofText raw).query = ((raw.cut '#').1.cut '?').2 := rfl
  have hwhole := toText_ofText raw
  rcases Text.cut_snd_eq '?' (raw.cut '#').1 with hnil | ⟨rest, hrest⟩
  · rw [hquery, hnil]
    exact spelled_fragment hraw
  · rw [toText, List.append_assoc, hquery, hrest] at hwhole
    rw [← hwhole] at hraw
    rw [hquery, hrest]
    exact spelled_of_mark (.inl rfl) hraw

end Payload

namespace Edit

/-- Whether an edit keeps its token's payload or has it name a file that was found. -/
def IsRebased (edit : Edit) : Prop :=
  edit.text = edit.token.raw ∨
    ∃ (nameFile : Text → Id Text) (mode : Mode) (keepQuery : Bool) (path : Text)
        (candidates shadowed : List Text),
      path ≠ [] ∧ nameFile path ≠ [] ∧
        edit.text =
          edit.token.rebase nameFile mode keepQuery (.found path candidates shadowed)

theorem fits_withPath
    {token : Token} {path : Text} (htoken : token.reading.WellFormed) (hpath : path ≠ [])
    (keepQuery : Bool) :
    Fits ⟨token, token.withPath keepQuery path⟩ where
  leading := htoken.leading
  trailing := htoken.trailing
  nonempty := by
    intro hnil
    have happend := (List.append_eq_nil_iff.mp hnil).1
    exact Escape.escape_ne_nil hpath (List.append_eq_nil_iff.mp happend).1
  spelled := by
    have hquery := Payload.spelled_query_fragment htoken.spelled
    have hfragment := Payload.spelled_fragment htoken.spelled
    simp only [Token.withPath, List.append_assoc]
    apply Escape.spelled_escape
    cases keepQuery with
    | true => exact hquery
    | false =>
        rw [if_neg (by decide), Payload.bareQuery]
        by_cases hbare : token.payload.query = "?".text ∧ token.payload.fragment ≠ []
        · rw [if_pos hbare, ← hbare.1]
          exact hquery
        · rw [if_neg hbare]
          exact hfragment

theorem IsRebased.fits
    {edit : Edit} (hedit : edit.IsRebased) (htoken : edit.token.reading.WellFormed) :
    edit.Fits := by
  obtain ⟨token, text⟩ := edit
  rcases hedit with hraw | ⟨nameFile, mode, keepQuery, path, candidates, shadowed, hpath,
    hname, htext⟩
  · obtain rfl : text = token.raw := hraw
    exact htoken
  · cases mode with
    | absolute =>
        obtain rfl : text = token.withPath keepQuery path := htext
        exact fits_withPath htoken hpath keepQuery
    | contentDerived =>
        obtain rfl : text = token.withPath keepQuery (nameFile path) := htext
        exact fits_withPath htoken hname keepQuery
    | keep =>
        obtain rfl : text = token.raw := htext
        exact htoken

theorem fits_of_rebased
    {text : Text} {edits : List Edit} (htokens : edits.map token = Token.scan text)
    (hedits : ∀ edit ∈ edits, edit.IsRebased) :
    ∀ edit ∈ edits, edit.Fits := by
  intro edit hedit
  have hmem : edit.token ∈ edits.map token := List.mem_map.mpr ⟨edit, hedit, rfl⟩
  rw [htokens] at hmem
  exact (hedits edit hedit).fits (Token.wellFormed_of_mem_scan hmem)

end Edit

end UrlRebase
