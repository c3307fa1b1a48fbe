import UrlRebase.Json.Parser
import UrlRebase.Json.Printer
import Mathlib.Algebra.Ring.Nat
import Mathlib.Data.List.DropRight
import Mathlib.Data.List.TakeDrop

/-!
# Printed numbers

A number that is printed is read again, and the reader stops where the writer did: the
shortest decimal of a double has no zero in front that the reader would stop behind, and what
follows a value in a printed text goes on with no number.  An integer is read if it does not
have too many digits.
-/

namespace UrlRebase

namespace Text

theorem isDigit_of_mem_ofNat {n : Nat} {c : CodePoint} (hc : c ∈ ofNat n) : c.isDigit = true := by
  obtain ⟨digit, hdigit, rfl⟩ := List.mem_map.mp hc
  exact Nat.isDigit_of_mem_toDigits (by decide) (by decide) hdigit

theorem ofNat_ne_nil (n : Nat) : ofNat n ≠ [] := by
  have hpos : 0 < (Nat.toDigits 10 n).length := Nat.length_toDigits_pos
  exact fun hnil => (List.ne_nil_of_length_pos hpos) (List.map_eq_nil_iff.mp hnil)

theorem head?_ofNat_ne_zero {n : Nat} (hn : n ≠ 0) :
    (ofNat n).head? ≠ some (CodePoint.char '0') := by
  unfold ofNat
  induction n using Nat.strong_induction_on with
  | _ n ih =>
      by_cases hsmall : n < 10
      · have hdigit : ∀ d < 10, d ≠ 0 → Nat.digitChar d ≠ '0' := by decide
        rw [Nat.toDigits_of_lt_base hsmall]
        simpa using hdigit n hsmall hn
      · have hrest := ih (n / 10) (by omega) (by omega)
        have hne : ofChars (Nat.toDigits 10 (n / 10)) ≠ [] := ofNat_ne_nil (n / 10)
        rw [Nat.toDigits_of_base_le (by decide) (Nat.le_of_not_lt hsmall)]
        unfold ofChars at hne hrest ⊢
        rwa [List.map_append, List.head?_append_of_ne_nil _ hne]

end Text

namespace Json

/-- Whether a text is empty or goes on as it may behind a value. -/
def Stops (rest : Text) : Prop :=
  ∀ c, rest.head? = some c → c = ',' ∨ c = ']' ∨ c = '\x7d'

/-- Whether a text is the whole part of a numeral: digits, the first of which is zero only if
there is no other. -/
structure IsWhole (whole : Text) : Prop where
  ne_nil : whole ≠ []
  isDigit : ∀ c ∈ whole, c.isDigit = true
  eq_zero : whole.head? = some (CodePoint.char '0') → whole = [CodePoint.char '0']

theorem isWhole_ofNat (n : Nat) : IsWhole (Text.ofNat n) where
  ne_nil := Text.ofNat_ne_nil n
  isDigit _ := Text.isDigit_of_mem_ofNat
  eq_zero hhead := by
    by_cases hn : n = 0
    · rw [hn]
      rfl
    · exact absurd hhead (Text.head?_ofNat_ne_zero hn)

/-! ## Parts of a numeral -/

theorem digits_append
    {found rest : Text} (hfound : ∀ c ∈ found, c.isDigit = true)
    (hrest : ∀ c, rest.head? = some c → c.isDigit = false) :
    digits (found ++ rest) = (found, rest) := by
  rw [digits, List.span_eq_takeWhile_dropWhile, List.takeWhile_append_of_pos hfound,
    List.dropWhile_append_of_pos hfound]
  cases rest with
  | nil => rw [List.takeWhile_nil, List.dropWhile_nil, List.append_nil]
  | cons c rest =>
      have hc := hrest c rfl
      rw [List.takeWhile_cons_of_neg (by simp [hc]), List.dropWhile_cons_of_neg (by simp [hc]),
        List.append_nil]

variable {rest : Text}

theorem Stops.isDigit (hrest : Stops rest) : ∀ c, rest.head? = some c → c.isDigit = false := by
  intro c hc
  rcases hrest c hc with rfl | rfl | rfl <;> decide

theorem fractionPart_of_ne_point (hrest : rest.head? ≠ some (CodePoint.char '.')) :
    fractionPart rest = ([], rest) := by
  unfold fractionPart
  split
  · exact absurd rfl hrest
  · rfl

theorem Stops.fractionPart (hrest : Stops rest) : fractionPart rest = ([], rest) := by
  apply fractionPart_of_ne_point
  intro hpoint
  have hstop := hrest _ hpoint
  simp at hstop

theorem Stops.exponentPart (hrest : Stops rest) : exponentPart rest = (none, rest) := by
  unfold Json.exponentPart
  split
  · rename_i e behind
    rw [if_neg]
    rcases hrest e rfl with rfl | rfl | rfl <;> decide
  · rfl

theorem fractionPart_point
    {fraction : Text} (hne : fraction ≠ []) (hfraction : ∀ c ∈ fraction, c.isDigit = true)
    (hrest : ∀ c, rest.head? = some c → c.isDigit = false) :
    fractionPart (CodePoint.char '.' :: (fraction ++ rest)) = (fraction, rest) := by
  obtain ⟨c, others, rfl⟩ := List.exists_cons_of_ne_nil hne
  unfold fractionPart
  simp only [digits_append hfraction hrest]

theorem exponentPart_sign
    {sign : CodePoint} (hsign : sign = '-' ∨ sign = '+') {exponent : Text} (hne : exponent ≠ [])
    (hexponent : ∀ c ∈ exponent, c.isDigit = true) :
    ∃ power, ∀ rest : Text, (∀ c, rest.head? = some c → c.isDigit = false) →
      exponentPart (CodePoint.char 'e' :: sign :: (exponent ++ rest)) = (some power, rest) := by
  obtain ⟨c, others, rfl⟩ := List.exists_cons_of_ne_nil hne
  rcases hsign with rfl | rfl
  · refine ⟨-(decimalValue (c :: others) : Int), fun rest hrest => ?_⟩
    unfold exponentPart
    simp only [true_or, if_true, digits_append hexponent hrest]
  · refine ⟨decimalValue (c :: others), fun rest hrest => ?_⟩
    unfold exponentPart
    simp only [true_or, if_true, digits_append hexponent hrest]
    rfl

/-- A numeral is read part by part. -/
theorem number?_append
    {whole behind : Text} (hwhole : IsWhole whole)
    (hbehind : ∀ c, behind.head? = some c → c.isDigit = false) {fraction left : Text}
    (hfraction : fractionPart behind = (fraction, left)) {exponent : Option Int}
    (hexponent : exponentPart left = (exponent, rest)) (negative : Bool) :
    number? negative (whole ++ behind) =
      if fraction = [] ∧ exponent = none then
        if Text.maxDigits < whole.length then none
        else
          some (.int (if negative then -(decimalValue whole : Int) else decimalValue whole), rest)
      else
        some (.double (Double.ofDecimal negative (decimalValue (whole ++ fraction))
          (exponent.getD 0 - fraction.length)), rest) := by
  unfold number?
  split
  rename_i heq
  have hparts : (_, _) = (whole, behind) := heq.symm.trans <| by
    split
    · rename_i hzero
      obtain ⟨c, others, rfl⟩ := List.exists_cons_of_ne_nil hwhole.ne_nil
      rw [List.cons_append] at hzero
      obtain ⟨rfl, rfl⟩ := List.cons.inj hzero
      obtain ⟨-, rfl⟩ := List.cons.inj (hwhole.eq_zero rfl)
      rfl
    · exact digits_append hwhole.isDigit hbehind
  obtain ⟨rfl, rfl⟩ := Prod.mk.inj hparts
  rw [if_neg hwhole.ne_nil, hfraction]
  simp only [hexponent]

/-- The spelling of a double: a whole part with a fraction, an exponent or both. -/
inductive IsFractional : Text → Prop
  | fraction {whole fraction : Text} (hwhole : IsWhole whole) (hne : fraction ≠ [])
      (hfraction : ∀ c ∈ fraction, c.isDigit = true) :
      IsFractional (whole ++ CodePoint.char '.' :: fraction)
  | exponent {whole exponent : Text} {sign : CodePoint} (hwhole : IsWhole whole)
      (hsign : sign = '-' ∨ sign = '+') (hne : exponent ≠ [])
      (hexponent : ∀ c ∈ exponent, c.isDigit = true) :
      IsFractional (whole ++ CodePoint.char 'e' :: sign :: exponent)
  | both {whole fraction exponent : Text} {sign : CodePoint} (hwhole : IsWhole whole)
      (hfraction : fraction ≠ []) (hdigits : ∀ c ∈ fraction, c.isDigit = true)
      (hsign : sign = '-' ∨ sign = '+') (hne : exponent ≠ [])
      (hexponent : ∀ c ∈ exponent, c.isDigit = true) :
      IsFractional
        (whole ++ CodePoint.char '.' :: (fraction ++ CodePoint.char 'e' :: sign :: exponent))

theorem IsFractional.exists_number? {text : Text} (h : IsFractional text) (negative : Bool) :
    ∃ double, ∀ rest, Stops rest →
      number? negative (text ++ rest) = some (.double double, rest) := by
  cases h with
  | @fraction whole fraction hwhole hne hfraction =>
      refine ⟨.ofDecimal negative (decimalValue (whole ++ fraction))
        ((none : Option Int).getD 0 - fraction.length), fun rest hrest => ?_⟩
      have hnumber := number?_append hwhole (by simp [CodePoint.isDigit])
        (fractionPart_point hne hfraction hrest.isDigit) hrest.exponentPart negative
      rw [if_neg (fun hboth => hne hboth.1)] at hnumber
      rw [List.append_assoc, List.cons_append, hnumber]
  | @exponent whole exponent sign hwhole hsign hne hexponent =>
      obtain ⟨power, hpower⟩ := exponentPart_sign hsign hne hexponent
      refine ⟨.ofDecimal negative (decimalValue (whole ++ []))
        ((some power).getD 0 - ([] : Text).length), fun rest hrest => ?_⟩
      have hnumber := number?_append hwhole (by simp [CodePoint.isDigit])
        (fractionPart_of_ne_point (by simp)) (hpower rest hrest.isDigit) negative
      rw [if_neg (by simp)] at hnumber
      rw [List.append_assoc, List.cons_append, List.cons_append, hnumber]
  | @both whole fraction exponent sign hwhole hfraction hdigits hsign hne hexponent =>
      obtain ⟨power, hpower⟩ := exponentPart_sign hsign hne hexponent
      refine ⟨.ofDecimal negative (decimalValue (whole ++ fraction))
        ((some power).getD 0 - fraction.length), fun rest hrest => ?_⟩
      have hnumber := number?_append hwhole (by simp [CodePoint.isDigit])
        (fractionPart_point hfraction hdigits (by simp [CodePoint.isDigit]))
        (hpower rest hrest.isDigit) negative
      rw [if_neg (fun hboth => hfraction hboth.1)] at hnumber
      simp only [List.append_assoc, List.cons_append, hnumber]

theorem IsFractional.exists_whole {text : Text} (h : IsFractional text) :
    ∃ whole behind, IsWhole whole ∧ text = whole ++ behind := by
  cases h with
  | fraction hwhole _ _ => exact ⟨_, _, hwhole, rfl⟩
  | exponent hwhole _ _ _ => exact ⟨_, _, hwhole, rfl⟩
  | both hwhole _ _ _ _ _ => exact ⟨_, _, hwhole, rfl⟩

/-! ## Integers -/

theorem decimalValue_ofNat (n : Nat) : decimalValue (Text.ofNat n) = n := by
  have hvalue : decimalValue (Text.ofNat n) = Nat.ofDigitChars 10 (Nat.toDigits 10 n) 0 := by
    unfold decimalValue Text.ofNat Text.ofChars Nat.ofDigitChars
    rw [List.foldl_map]
    simp only [CodePoint.toNat, Nat.mul_comm]
  rw [hvalue, Nat.ofDigitChars_toDigits (by decide) (by decide)]

theorem decimalValue_lt {whole : Text} (hwhole : ∀ c ∈ whole, c.isDigit = true) :
    decimalValue whole < 10 ^ whole.length := by
  induction whole using List.reverseRecOn with
  | nil => simp [decimalValue]
  | append_singleton whole c ih =>
      have hrest := ih fun d hd => hwhole d (List.mem_append_left [c] hd)
      have hc : c.toNat - '0'.toNat ≤ 9 := by
        have hdigit := hwhole c (by simp)
        cases c with
        | half offset => simp [CodePoint.isDigit] at hdigit
        | char c =>
            have hrange := Char.isDigit_iff_toNat.mp hdigit
            simp only [CodePoint.toNat]
            have hnine : '9'.toNat = '0'.toNat + 9 := rfl
            omega
      unfold decimalValue at hrest ⊢
      rw [List.foldl_append, List.length_append, List.length_singleton, Nat.pow_succ]
      simp only [List.foldl_cons, List.foldl_nil]
      omega

/-- A numeral with few enough digits is that of an integer that is not too long. -/
theorem isTooLong_decimalValue
    {whole : Text} (hne : whole ≠ []) (hwhole : ∀ c ∈ whole, c.isDigit = true)
    (hlength : whole.length ≤ Text.maxDigits) (negative : Bool) :
    Text.isTooLong (if negative then -(decimalValue whole : Int) else decimalValue whole) =
      false := by
  have hdigits : (Text.ofNat (decimalValue whole)).length ≤ whole.length := by
    rw [Text.ofNat, Text.ofChars, List.length_map,
      Nat.length_toDigits_le_iff (by decide) (List.length_pos_of_ne_nil hne)]
    exact decimalValue_lt hwhole
  have habs : (if negative then -(decimalValue whole : Int) else decimalValue whole).natAbs =
      decimalValue whole := by
    split <;> simp
  rw [Text.isTooLong, habs, decide_eq_false_iff_not]
  omega

def minus (negative : Bool) : Text :=
  if negative then "-".text else []

theorem word?_eq_none {c d : CodePoint} (h : c ≠ d) (word text : Text) :
    word? (c :: word) (d :: text) = none := by
  simp [word?, h]

theorem scalar?_minus
    {whole : Text} (hwhole : IsWhole whole) (negative : Bool) (behind : Text) :
    scalar? (minus negative ++ (whole ++ behind)) = number? negative (whole ++ behind) := by
  obtain ⟨c, others, rfl⟩ := List.exists_cons_of_ne_nil hwhole.ne_nil
  have hdigit := hwhole.isDigit c List.mem_cons_self
  have hne {d : CodePoint} (hd : d.isDigit = false) : d ≠ c := by
    rintro rfl
    simp [hdigit] at hd
  have hword (d : CodePoint) (hd : d.isDigit = false) (word : Text) :
      word? (d :: word) (c :: (others ++ behind)) = none := word?_eq_none (hne hd) _ _
  have hinfinity : word? "Infinity".text (c :: (others ++ behind)) = none := hword 'I' rfl _
  rw [List.cons_append]
  cases negative with
  | true =>
      change scalar? (CodePoint.char '-' :: c :: (others ++ behind)) = _
      unfold scalar?
      simp only [hinfinity]
  | false =>
      have hnull : word? "null".text (c :: (others ++ behind)) = none := hword 'n' rfl _
      have htrue : word? "true".text (c :: (others ++ behind)) = none := hword 't' rfl _
      have hfalse : word? "false".text (c :: (others ++ behind)) = none := hword 'f' rfl _
      have hnan : word? "NaN".text (c :: (others ++ behind)) = none := hword 'N' rfl _
      change scalar? (c :: (others ++ behind)) = _
      rw [scalar?]
      · simp only [hnull, htrue, hfalse, hnan, hinfinity]
      · exact fun _ hquote => hne rfl (List.cons.inj hquote).1.symm
      · exact fun _ hminus => hne rfl (List.cons.inj hminus).1.symm

theorem ofInt_eq (n : Int) : Text.ofInt n = minus (n < 0) ++ Text.ofNat n.natAbs := by
  cases n with
  | ofNat n => rfl
  | negSucc n =>
      rw [minus, if_pos (decide_eq_true (Int.negSucc_lt_zero n))]
      rfl

theorem exists_ofInt_cons (n : Int) :
    ∃ c rest, Text.ofInt n = c :: rest ∧ (c = '-' ∨ c.isDigit = true) := by
  rw [ofInt_eq]
  by_cases hn : n < 0
  · exact ⟨'-', Text.ofNat n.natAbs, by rw [minus, if_pos (decide_eq_true hn)]; rfl, .inl rfl⟩
  · obtain ⟨c, rest, hdigits⟩ := List.exists_cons_of_ne_nil (Text.ofNat_ne_nil n.natAbs)
    refine ⟨c, rest, ?_, .inr (Text.isDigit_of_mem_ofNat (hdigits ▸ List.mem_cons_self))⟩
    rw [minus, if_neg (by simpa using hn), List.nil_append, hdigits]

/-- An integer reads back, unless it has too many digits. -/
theorem scalar?_ofInt (n : Int) (hrest : Stops rest) :
    scalar? (Text.ofInt n ++ rest) =
      if Text.isTooLong n then none else some (.int n, rest) := by
  have hvalue : (if n < 0 then -(n.natAbs : Int) else n.natAbs) = n := by omega
  rw [ofInt_eq, List.append_assoc, scalar?_minus (isWhole_ofNat _),
    number?_append (isWhole_ofNat _) hrest.isDigit hrest.fractionPart hrest.exponentPart,
    if_pos ⟨rfl, rfl⟩, decimalValue_ofNat, Text.isTooLong]
  simp only [decide_eq_true_eq, hvalue]

/-! ## Doubles -/

theorem isWhole_of_head
    {c : CodePoint} {rest : Text} (hc : c ≠ CodePoint.char '0')
    (hdigit : ∀ d ∈ c :: rest, d.isDigit = true) :
    IsWhole (c :: rest) where
  ne_nil := by simp
  isDigit := hdigit
  eq_zero hhead := absurd (Option.some.inj hhead) hc

theorem isDigit_of_mem_replicate {n : Nat} {c : CodePoint}
    (hc : c ∈ List.replicate n (CodePoint.char '0')) : c.isDigit = true := by
  rw [List.eq_of_mem_replicate hc]
  rfl

/-- The decimals of a double are the digits without the zeros at their end, and do not start
with a zero. -/
theorem exists_trimRight_ofNat {digits : Nat} (hdigits : digits ≠ 0) :
    ∃ c rest, Text.trimRight (· = .char '0') (Text.ofNat digits) = c :: rest ∧
      c ≠ CodePoint.char '0' ∧ ∀ d ∈ c :: rest, d.isDigit = true := by
  have hstart : Text.trimRight (· = .char '0') (Text.ofNat digits) <+: Text.ofNat digits :=
    List.rdropWhile_prefix _ _
  obtain ⟨c, others, hnat⟩ := List.exists_cons_of_ne_nil (Text.ofNat_ne_nil digits)
  have hc : c ≠ CodePoint.char '0' := by
    have hhead := Text.head?_ofNat_ne_zero hdigits
    rw [hnat] at hhead
    simpa using hhead
  cases htrim : Text.trimRight (· = .char '0') (Text.ofNat digits) with
  | nil =>
      have hall := List.rdropWhile_eq_nil_iff.mp htrim c (by rw [hnat]; exact List.mem_cons_self)
      exact absurd (by simpa using hall) hc
  | cons d rest =>
      rw [htrim] at hstart
      have hmem : ∀ e ∈ d :: rest, e.isDigit = true := fun e he =>
        Text.isDigit_of_mem_ofNat (hstart.subset he)
      rw [hnat, List.cons_prefix_cons] at hstart
      obtain ⟨rfl, -⟩ := hstart
      exact ⟨d, rest, rfl, hc, hmem⟩

section Notation

variable {c : CodePoint} {rest : Text}

theorem isFractional_point
    (hc : c ≠ '0') (hdigit : ∀ d ∈ c :: rest, d.isDigit = true) (n : Nat) :
    IsFractional ((c :: rest).take (n + 1) ++
      List.replicate (n + 1 - (c :: rest).length) (CodePoint.char '0') ++ ".".text ++
      if (c :: rest).drop (n + 1) = [] then "0".text else (c :: rest).drop (n + 1)) := by
  have hwhole : IsWhole (c :: (rest.take n ++
      List.replicate (n + 1 - (c :: rest).length) (CodePoint.char '0'))) := by
    refine isWhole_of_head hc ?_
    intro d hd
    rw [← List.cons_append] at hd
    rcases List.mem_append.mp hd with hd | hd
    · exact hdigit d (List.cons_subset_cons c (List.take_subset n rest) hd)
    · exact isDigit_of_mem_replicate hd
  have hne : (if rest.drop n = [] then "0".text else rest.drop n) ≠ [] := by
    split
    · exact List.cons_ne_nil _ _
    · assumption
  have hfraction : ∀ d ∈ (if rest.drop n = [] then "0".text else rest.drop n),
      d.isDigit = true := by
    split
    · simp [String.text, CodePoint.isDigit]
    · exact fun d hd => hdigit d (List.mem_cons_of_mem c (List.mem_of_mem_drop hd))
  have hpoint : ".".text = [CodePoint.char '.'] := rfl
  simpa only [List.take_succ_cons, List.drop_succ_cons, hpoint, List.cons_append,
    List.append_assoc, List.nil_append] using IsFractional.fraction hwhole hne hfraction

theorem isFractional_scientific
    (hc : c ≠ '0') (hdigit : ∀ d ∈ c :: rest, d.isDigit = true) (exponent : Int) :
    IsFractional ((c :: rest).take 1 ++
      (if (c :: rest).length ≤ 1 then [] else CodePoint.char '.' :: (c :: rest).drop 1) ++ "e".text ++
      (if exponent < 0 then CodePoint.char '-' else CodePoint.char '+') ::
        (List.replicate (2 - (Text.ofNat exponent.natAbs).length) (CodePoint.char '0') ++
          Text.ofNat exponent.natAbs)) := by
  have hwhole : IsWhole [c] :=
    isWhole_of_head hc fun d hd => hdigit d (by simp [List.mem_singleton.mp hd])
  have hsign : (if exponent < 0 then CodePoint.char '-' else CodePoint.char '+') = '-' ∨
      (if exponent < 0 then CodePoint.char '-' else CodePoint.char '+') = '+' := by
    split <;> simp
  have hne : List.replicate (2 - (Text.ofNat exponent.natAbs).length) (CodePoint.char '0') ++
      Text.ofNat exponent.natAbs ≠ [] :=
    List.append_ne_nil_of_right_ne_nil _ (Text.ofNat_ne_nil _)
  have hexponent : ∀ d ∈
      List.replicate (2 - (Text.ofNat exponent.natAbs).length) (CodePoint.char '0') ++
        Text.ofNat exponent.natAbs, d.isDigit = true := by
    intro d hd
    rcases List.mem_append.mp hd with hd | hd
    · exact isDigit_of_mem_replicate hd
    · exact Text.isDigit_of_mem_ofNat hd
  cases rest with
  | nil => exact .exponent hwhole hsign hne hexponent
  | cons d rest =>
      rw [if_neg (by simp)]
      simp only [List.append_assoc]
      exact .both hwhole (by simp) (fun e he => hdigit e (List.mem_cons_of_mem c he)) hsign hne
        hexponent

end Notation

theorem isFractional_ofDecimal {digits : Nat} (hdigits : digits ≠ 0) (power : Int) :
    IsFractional (Text.ofDecimal digits power) := by
  obtain ⟨c, rest, hshown, hc, hdigit⟩ := exists_trimRight_ofNat hdigits
  unfold Text.ofDecimal
  simp only [hshown]
  split
  · split
    · have hzero : IsWhole [CodePoint.char '0'] := isWhole_ofNat 0
      refine .fraction hzero (by simp) ?_
      intro d hd
      rcases List.mem_append.mp hd with hd | hd
      · exact isDigit_of_mem_replicate hd
      · exact hdigit d hd
    · generalize hplace : ((Text.ofNat digits).length + power).toNat = place
      obtain ⟨n, rfl⟩ : ∃ n, place = n + 1 := ⟨place - 1, by omega⟩
      exact isFractional_point hc hdigit n
  · exact isFractional_scientific hc hdigit _

theorem readsBack_ne_zero
    {mantissa digits : Nat} {exponent power : Int} (hmantissa : mantissa ≠ 0)
    (h : Double.readsBack mantissa exponent digits power = true) : digits ≠ 0 := by
  rintro rfl
  rw [Double.readsBack, decide_eq_true_eq, Double.ofDecimal, if_pos (.inl rfl)] at h
  exact hmantissa (Double.finite.inj h).2.1.symm

theorem shortest_ne_zero {mantissa : Nat} (hmantissa : mantissa ≠ 0) (exponent : Int) :
    (Double.shortest mantissa exponent).1 ≠ 0 := by
  unfold Double.shortest
  simp only
  split
  · rename_i decimal hdecimal
    obtain ⟨power, -, hcandidate⟩ := List.exists_of_findSome?_eq_some hdecimal
    obtain ⟨digits, -, hdigits⟩ := List.exists_of_findSome?_eq_some hcandidate
    split at hdigits
    · rename_i hback
      obtain rfl := Option.some.inj hdigits
      exact readsBack_ne_zero hmantissa hback
    · simp at hdigits
  · exact hmantissa

/-- A double is read as some double. -/
theorem exists_scalar?_toText (double : Double) :
    ∃ read, ∀ rest, Stops rest →
      scalar? (double.toText "Infinity".text "NaN".text ++ rest) = some (.double read, rest) := by
  cases double with
  | finite negative mantissa exponent =>
      have hfractional : ∃ text, IsFractional text ∧
          (Double.finite negative mantissa exponent).toText "Infinity".text "NaN".text =
            minus negative ++ text := by
        by_cases hmantissa : mantissa = 0
        · have hzero : ∀ c ∈ [CodePoint.char '0'], c.isDigit = true := by simp [CodePoint.isDigit]
          refine ⟨_, .fraction (isWhole_ofNat 0) (List.cons_ne_nil _ []) hzero, ?_⟩
          rw [hmantissa]
          rfl
        · refine ⟨_, isFractional_ofDecimal (shortest_ne_zero hmantissa exponent)
            (Double.shortest mantissa exponent).2, ?_⟩
          simp only [Double.toText, if_neg hmantissa]
          rfl
      obtain ⟨text, htext, hprint⟩ := hfractional
      obtain ⟨read, hread⟩ := htext.exists_number? negative
      obtain ⟨whole, behind, hwhole, rfl⟩ := htext.exists_whole
      refine ⟨read, fun rest hrest => ?_⟩
      rw [hprint, List.append_assoc, List.append_assoc, scalar?_minus hwhole,
        ← List.append_assoc, hread rest hrest]
  | infinite negative =>
      refine ⟨.infinite negative, fun rest _ => ?_⟩
      cases negative <;> rfl
  | nan => exact ⟨.nan, fun _ _ => rfl⟩

end Json

end UrlRebase
