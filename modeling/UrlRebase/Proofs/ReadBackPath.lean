import UrlRebase.Proofs.KeyedLookups
import UrlRebase.Proofs.RebasedPayload

/-!
# Paths read back from rebased payloads

A rebased payload should name the file that was found: cut at its marks and decoded, first
its escapes and then its percent signs, its path should be the path of the file.

Escapes are written for every character that needs one, so they always read back.  The marks
of queries and fragments and the percent sign are written as they are.  So the path reads
back exactly if it has no such mark and no percent sign in front of two hexadecimal digits.
-/

namespace UrlRebase

/-! ## Percent signs -/

namespace Percent

/-- Whether a percent sign of a text has two hexadecimal digits behind it. -/
def Escaped (text : Text) : Prop :=
  ∃ a b, Text.isHex a = true ∧ Text.isHex b = true ∧ [CodePoint.char '%', a, b] <:+: text

theorem isAscii_of_isHex {c : CodePoint} (hc : Text.isHex c = true) : isAscii c = true := by
  have hle {d : Char} (h : c ≤ CodePoint.char d) (hd : d.toNat < 0x80) : c.toNat < 0x80 :=
    Nat.lt_of_le_of_lt h hd
  unfold isAscii
  rw [decide_eq_true_eq]
  unfold Text.isHex Text.hexValue? at hc
  split at hc
  · rename_i h
    exact hle h.2 (by decide)
  · split at hc
    · rename_i h
      exact hle h.2 (by decide)
    · split at hc
      · rename_i h
        exact hle h.2 (by decide)
      · simp at hc

theorem not_escaped_nil : ¬Escaped [] := by
  rintro ⟨a, b, -, -, hwithin⟩
  simp at hwithin

/-- A percent sign counts by the two characters behind it. -/
theorem escaped_cons_iff {c : CodePoint} {rest : Text} :
    Escaped (c :: rest) ↔
      (∃ a b behind, Text.isHex a = true ∧ Text.isHex b = true ∧ c = '%' ∧
        rest = a :: b :: behind) ∨ Escaped rest := by
  constructor
  · rintro ⟨a, b, ha, hb, hwithin⟩
    rcases List.infix_cons_iff.mp hwithin with ⟨behind, hstart⟩ | hwithin
    · obtain ⟨hc, hrest⟩ := List.cons.inj hstart
      exact .inl ⟨a, b, behind, ha, hb, hc.symm, hrest.symm⟩
    · exact .inr ⟨a, b, ha, hb, hwithin⟩
  · rintro (⟨a, b, behind, ha, hb, rfl, rfl⟩ | ⟨a, b, ha, hb, hwithin⟩)
    · exact ⟨a, b, ha, hb, [], behind, rfl⟩
    · exact ⟨a, b, ha, hb, List.infix_cons hwithin⟩

theorem Escaped.cons {text : Text} (h : Escaped text) (c : CodePoint) : Escaped (c :: text) := by
  obtain ⟨a, b, ha, hb, hwithin⟩ := h
  exact ⟨a, b, ha, hb, List.infix_cons hwithin⟩

theorem Escaped.append {run : Text} (h : Escaped run) (behind : Text) :
    Escaped (run ++ behind) := by
  obtain ⟨a, b, ha, hb, hwithin⟩ := h
  exact ⟨a, b, ha, hb, hwithin.trans (List.prefix_append run behind).isInfix⟩

theorem Escaped.append_left {behind : Text} (h : Escaped behind) (run : Text) :
    Escaped (run ++ behind) := by
  obtain ⟨a, b, ha, hb, hwithin⟩ := h
  exact ⟨a, b, ha, hb, hwithin.trans (List.suffix_append run behind).isInfix⟩

/-- Behind a character beyond ASCII nothing belongs to a percent sign before it. -/
theorem escaped_append_iff
    {run behind : Text} (hbehind : ∀ c, behind.head? = some c → isAscii c = false) :
    Escaped (run ++ behind) ↔ Escaped run ∨ Escaped behind := by
  refine ⟨?_, fun h => h.elim (·.append behind) (·.append_left run)⟩
  have hhead {c : CodePoint} {rest : Text} (hc : Text.isHex c = true) :
      behind ≠ c :: rest := by
    rintro rfl
    have hascii := hbehind c rfl
    rw [isAscii_of_isHex hc] at hascii
    simp at hascii
  intro h
  induction run with
  | nil => exact .inr h
  | cons c run ih =>
      rw [List.cons_append] at h
      rcases escaped_cons_iff.mp h with ⟨a, b, rest, ha, hb, rfl, hrest⟩ | h
      · match run with
        | [] => exact absurd hrest (hhead ha)
        | [d] => exact absurd (List.cons.inj hrest).2 (hhead hb)
        | d :: e :: run =>
            obtain ⟨rfl, htail⟩ := List.cons.inj hrest
            obtain ⟨rfl, -⟩ := List.cons.inj htail
            exact .inl (escaped_cons_iff.mpr (.inl ⟨d, e, run, ha, hb, rfl, rfl⟩))
      · exact (ih h).imp_left (·.cons c)

/-- Reading percent signs leaves fewer bytes than characters if one of them spells a byte,
and otherwise the characters themselves. -/
theorem bytes_spec (text : Text) :
    (bytes text).length ≤ text.length ∧ (Escaped text → (bytes text).length < text.length) ∧
      (¬Escaped text → bytes text = text.map CodePoint.toNat) := by
  fun_induction bytes text with
  | case1 a b rest high low hlow hhigh ih =>
      have ha : Text.isHex a = true := by rw [Text.isHex, hhigh]; rfl
      have hb : Text.isHex b = true := by rw [Text.isHex, hlow]; rfl
      have hescaped : Escaped ('%' :: a :: b :: rest) :=
        escaped_cons_iff.mpr (.inl ⟨a, b, rest, ha, hb, rfl, rfl⟩)
      simp only [List.length_cons]
      refine ⟨by omega, fun _ => by omega, fun hnot => absurd hescaped hnot⟩
  | case2 a b rest hnone ih =>
      obtain ⟨hle, hlt, heq⟩ := ih
      have hiff : Escaped ('%' :: a :: b :: rest) ↔ Escaped (a :: b :: rest) := by
        refine escaped_cons_iff.trans (or_iff_right ?_)
        rintro ⟨a', b', behind, ha, hb, -, hshape⟩
        obtain ⟨rfl, htail⟩ := List.cons.inj hshape
        obtain ⟨rfl, -⟩ := List.cons.inj htail
        obtain ⟨high, hhigh⟩ := Option.isSome_iff_exists.mp ha
        obtain ⟨low, hlow⟩ := Option.isSome_iff_exists.mp hb
        exact hnone high low hhigh hlow
      rw [hiff]
      refine ⟨by simpa using hle, fun h => by simpa using hlt h, ?_⟩
      intro hnot
      rw [heq hnot]
      rfl
  | case3 c rest hshape ih =>
      obtain ⟨hle, hlt, heq⟩ := ih
      have hiff : Escaped (c :: rest) ↔ Escaped rest := by
        refine escaped_cons_iff.trans (or_iff_right ?_)
        rintro ⟨a, b, behind, -, -, hc, hrest⟩
        exact hshape a b behind hc hrest
      rw [hiff]
      refine ⟨by simpa using hle, fun h => by simpa using hlt h, ?_⟩
      intro hnot
      rw [heq hnot]
      rfl
  | case4 => exact ⟨le_rfl, fun h => absurd h not_escaped_nil, fun _ => rfl⟩

end Percent

theorem Utf8.length_decodeLossy_le (bytes : List Nat) :
    (decodeLossy bytes).length ≤ bytes.length := by
  fun_induction decodeLossy bytes with
  | case1 => exact le_rfl
  | case2 byte rest hlead ih => simpa using ih
  | case3 byte rest bits bounds hlead point taken hfollow ih =>
      simp only [List.length_drop, List.length_cons] at ih ⊢
      omega
  | case4 byte rest bits bounds hlead taken hfollow ih =>
      have hlength : ("\uFFFD".text).length = 1 := rfl
      simp only [List.length_drop, List.length_append, List.length_cons] at ih ⊢
      omega

theorem Utf8.decodeLossy_toNat {text : Text} (htext : ∀ c ∈ text, Percent.isAscii c = true) :
    decodeLossy (text.map CodePoint.toNat) = text := by
  induction text with
  | nil => rw [List.map_nil, decodeLossy]
  | cons c rest ih =>
      have hascii : c.toNat < 0x80 := by simpa [Percent.isAscii] using htext c List.mem_cons_self
      have hlead : lead? c.toNat = some (c.toNat, []) := by simp only [lead?, if_pos hascii]
      rw [List.map_cons, decodeLossy, hlead]
      simp only [follow, List.drop_zero, CodePoint.ofNat_toNat]
      rw [ih fun d hd => htext d (List.mem_cons_of_mem c hd)]

namespace Percent

theorem decode_spec (text : Text) :
    (decode text).length ≤ text.length ∧ (Escaped text → (decode text).length < text.length) ∧
      (¬Escaped text → decode text = text) := by
  fun_induction decode text with
  | case1 => exact ⟨le_rfl, fun h => absurd h not_escaped_nil, fun _ => rfl⟩
  | case2 c rest hc ih =>
      -- The run of ASCII characters at the head is read as bytes, what is behind it apart.
      generalize hrun : c :: rest.takeWhile isAscii = run
      generalize hbehind : rest.dropWhile isAscii = behind at ih
      have hsplit : c :: rest = run ++ behind := by
        rw [← hrun, ← hbehind, List.cons_append, List.takeWhile_append_dropWhile]
      have hascii : ∀ d ∈ run, isAscii d = true := by
        intro d hd
        rw [← hrun] at hd
        rcases List.mem_cons.mp hd with rfl | hd
        · exact hc
        · exact List.mem_takeWhile_imp hd
      have hhead : ∀ d, behind.head? = some d → isAscii d = false := by
        intro d hd
        have hnot := List.head?_dropWhile_not isAscii rest
        rw [hbehind, hd] at hnot
        simpa using hnot
      obtain ⟨hle, hlt, heq⟩ := ih
      obtain ⟨hrunLe, hrunLt, hrunEq⟩ := bytes_spec run
      have hlossy := Utf8.length_decodeLossy_le (bytes run)
      rw [hsplit, escaped_append_iff hhead]
      simp only [List.length_append]
      refine ⟨by omega, ?_, ?_⟩
      · rintro (h | h)
        · have := hrunLt h
          omega
        · have := hlt h
          omega
      · intro hnot
        rw [not_or] at hnot
        rw [hrunEq hnot.1, Utf8.decodeLossy_toNat hascii, heq hnot.2]
  | case3 c rest hc ih =>
      obtain ⟨hle, hlt, heq⟩ := ih
      have hiff : Escaped (c :: rest) ↔ Escaped rest := by
        refine escaped_cons_iff.trans (or_iff_right ?_)
        rintro ⟨a, b, behind, -, -, rfl, -⟩
        exact hc (by decide)
      rw [hiff]
      refine ⟨by simpa using hle, fun h => by simpa using hlt h, ?_⟩
      intro hnot
      rw [heq hnot]

theorem decode_eq_self_iff {text : Text} : decode text = text ↔ ¬Escaped text := by
  obtain ⟨-, hlt, heq⟩ := decode_spec text
  refine ⟨?_, heq⟩
  intro hself hescaped
  have hshorter := hlt hescaped
  rw [hself] at hshorter
  omega

end Percent

/-! ## Escapes -/

namespace Escape

theorem codePoint_hex :
    ∀ n < 0x80, n ≠ 0 → codePoint (Text.hexNumber (Text.hex 1 n)) = CodePoint.ofNat n := by
  decide +kernel

/-- An escape in digits reads back, the space behind it with it. -/
theorem unescape_hex
    {n : Nat} (hn : n < 0x80) (hpos : n ≠ 0) (rest : Text) :
    unescape ("\\".text ++ Text.hex 1 n ++ " ".text ++ rest) =
      CodePoint.ofNat n :: unescape rest := by
  obtain ⟨hne, hlength, hhex⟩ := hex_shape n hn
  have hcode := codePoint_hex n hn hpos
  generalize Text.hex 1 n = digits at hne hlength hhex hcode
  obtain ⟨d, more, rfl⟩ := List.exists_cons_of_ne_nil hne
  have hdigits : hexDigits (d :: more ++ " ".text ++ rest) = d :: more :=
    hexDigits_append_space hlength hhex rest
  have hshape : "\\".text ++ (d :: more) ++ " ".text ++ rest =
      CodePoint.char '\\' :: d :: (more ++ " ".text ++ rest) := by
    simp [String.text]
  rw [List.cons_append, List.cons_append] at hdigits
  rw [hshape, unescape, if_pos (hhex d List.mem_cons_self)]
  simp only [hdigits, hcode]
  have hbehind : (d :: (more ++ " ".text ++ rest)).drop (d :: more).length =
      CodePoint.char ' ' :: rest := by
    rw [List.append_assoc, ← List.cons_append, List.drop_left]
    rfl
  rw [hbehind]
  have hblank : optional isTerminator (CodePoint.char ' ' :: rest) = [' '] := rfl
  rw [hblank]
  rfl

theorem unescape_spell
    {quote : Quote} {c : CodePoint} (hc : c ≠ '\x00') (rest : Text) :
    unescape (spell quote c ++ rest) = c :: unescape rest := by
  unfold spell
  by_cases hcontrol : isControl c = true
  · have hpos : c.toNat ≠ 0 := by
      intro hzero
      exact hc (CodePoint.toNat_injective hzero)
    rw [if_pos hcontrol, unescape_hex (toNat_lt_of_isControl hcontrol) hpos,
      CodePoint.ofNat_toNat]
  · rw [if_neg hcontrol]
    by_cases hspecial : isSpecial quote c = true
    · rw [if_pos hspecial]
      have hhex := (isSpecial_shape hspecial).2
      rw [List.cons_append, List.singleton_append, unescape, if_neg (by simp [hhex])]
    · rw [if_neg hspecial]
      have hne : c ≠ '\\' := by
        rintro rfl
        exact hspecial (by cases quote <;> decide)
      rw [List.singleton_append, unescape]
      · exact fun hbackslash => absurd hbackslash hne
      · exact fun _ _ hbackslash => absurd hbackslash hne

theorem unescape_escape
    {quote : Quote} {path : Text} (hpath : CodePoint.char '\x00' ∉ path) :
    unescape (escape quote path) = path := by
  induction path with
  | nil => rw [escape, List.flatMap_nil, unescape]
  | cons c rest ih =>
      have hc : c ≠ '\x00' := fun h => hpath (h ▸ List.mem_cons_self)
      have hrest := ih fun h => hpath (List.mem_cons_of_mem c h)
      rw [escape, List.flatMap_cons, unescape_spell hc]
      exact congrArg _ hrest

theorem mem_spell_iff
    {quote : Quote} {mark c : CodePoint} (hmark : mark = '?' ∨ mark = '#') :
    mark ∈ spell quote c ↔ mark = c := by
  have hhex : Text.isHex mark = false := by rcases hmark with rfl | rfl <;> decide
  have hcontrol : isControl mark = false := by rcases hmark with rfl | rfl <;> decide
  have hspecial : isSpecial quote mark = false := by
    rcases hmark with rfl | rfl <;> cases quote <;> decide
  have hbackslash : mark ≠ '\\' := by rcases hmark with rfl | rfl <;> decide
  have hblank : mark ≠ ' ' := by rcases hmark with rfl | rfl <;> decide
  unfold spell
  by_cases hc : isControl c = true
  · have hdigits : mark ∉ Text.hex 1 c.toNat := by
      intro hmem
      rw [(hex_shape c.toNat (toNat_lt_of_isControl hc)).2.2 mark hmem] at hhex
      simp at hhex
    have hne : mark ≠ c := by
      rintro rfl
      simp [hcontrol] at hc
    simp [if_pos hc, hdigits, hne, String.text, hbackslash, hblank]
  · rw [if_neg hc]
    by_cases hc' : isSpecial quote c = true
    · have hne : mark ≠ c := by
        rintro rfl
        simp [hspecial] at hc'
      simp [if_pos hc', hbackslash, hne]
    · rw [if_neg hc', List.mem_singleton]

theorem mem_escape_iff
    {quote : Quote} {mark : CodePoint} {path : Text} (hmark : mark = '?' ∨ mark = '#') :
    mark ∈ escape quote path ↔ mark ∈ path := by
  simp only [escape, List.mem_flatMap, mem_spell_iff hmark]
  exact ⟨fun ⟨c, hc, heq⟩ => heq ▸ hc, fun h => ⟨mark, h, rfl⟩⟩

end Escape

/-! ## Payloads -/

theorem Text.cut_append_of_notMem
    {separator : CodePoint} {before behind : Text} (hbefore : separator ∉ before)
    (hbehind : behind = [] ∨ ∃ rest, behind = separator :: rest) :
    (before ++ behind).cut separator = (before, behind) := by
  have hall : ∀ c ∈ before, decide (c ≠ separator) = true := by
    intro c hc
    exact decide_eq_true (ne_of_mem_of_not_mem hc hbefore)
  unfold cut
  rw [List.takeWhile_append_of_pos hall, List.dropWhile_append_of_pos hall]
  rcases hbehind with rfl | ⟨rest, rfl⟩ <;> simp

theorem Text.notMem_cut_fst (separator : CodePoint) (text : Text) :
    separator ∉ (text.cut separator).1 := by
  intro hmem
  simpa using List.mem_takeWhile_imp hmem

namespace Payload

/-- Whether a payload names a file by its path, and has the query and the fragment of the
payload that it was made from. -/
structure Names (payload authored : Payload) (path : Text) : Prop where
  query : payload.query = authored.query
  fragment : payload.fragment = authored.fragment
  path : Percent.decode (unescape payload.path) = path

theorem notMem_path {mark : CodePoint} (hmark : mark = '?' ∨ mark = '#') (raw : Text) :
    mark ∉ (ofText raw).path := by
  rcases hmark with rfl | rfl
  · exact Text.notMem_cut_fst '?' _
  · intro hmem
    exact Text.notMem_cut_fst '#' raw ((List.takeWhile_prefix _).subset hmem)

/-- A path without a mark that is put in place of another is cut off again. -/
theorem ofText_append
    {path : Text} (hquery : CodePoint.char '?' ∉ path) (hfragment : CodePoint.char '#' ∉ path)
    (raw : Text) :
    ofText (path ++ (ofText raw).query ++ (ofText raw).fragment) =
      ⟨path, (ofText raw).query, (ofText raw).fragment⟩ := by
  have hnot : CodePoint.char '#' ∉ path ++ (ofText raw).query := by
    rw [List.mem_append, not_or]
    refine ⟨hfragment, ?_⟩
    intro hmem
    exact Text.notMem_cut_fst '#' raw ((List.dropWhile_suffix _).subset hmem)
  have hhash := Text.cut_append_of_notMem hnot (Text.cut_snd_eq '#' raw)
  have hmark := Text.cut_append_of_notMem hquery (Text.cut_snd_eq '?' (raw.cut '#').1)
  unfold ofText at *
  simp only at *
  rw [hhash]
  simp only [hmark]

end Payload

namespace Token

variable {token : Token} {path : Text}

/-- A token that gets the path of a file names it exactly if the path has no mark of a query
or a fragment and no percent sign that spells a byte. -/
theorem names_withPath_iff (hpath : CodePoint.char '\x00' ∉ path) :
    (Payload.ofText (token.withPath true path)).Names token.payload path ↔
      CodePoint.char '?' ∉ path ∧ CodePoint.char '#' ∉ path ∧ ¬Percent.Escaped path := by
  have hraw : token.withPath true path =
      escape token.quote path ++ token.payload.query ++ token.payload.fragment := rfl
  have hmem {mark : CodePoint} (hmark : mark = '?' ∨ mark = '#') :
      mark ∈ escape token.quote path ↔ mark ∈ path := Escape.mem_escape_iff hmark
  constructor
  · intro h
    have hparts := Payload.toText_ofText (token.withPath true path)
    rw [Payload.toText, h.query, h.fragment, hraw] at hparts
    have hwritten : (Payload.ofText (token.withPath true path)).path =
        escape token.quote path :=
      List.append_cancel_right (List.append_cancel_right hparts)
    have hnone {mark : CodePoint} (hmark : mark = '?' ∨ mark = '#') : mark ∉ path := by
      rw [← hmem hmark, ← hwritten]
      exact Payload.notMem_path hmark _
    refine ⟨hnone (.inl rfl), hnone (.inr rfl), ?_⟩
    have hdecoded := h.path
    rw [hwritten, Escape.unescape_escape hpath] at hdecoded
    exact Percent.decode_eq_self_iff.mp hdecoded
  · rintro ⟨hquery, hfragment, hescaped⟩
    have hparts := Payload.ofText_append
      (fun h => hquery ((hmem (.inl rfl)).mp h)) (fun h => hfragment ((hmem (.inr rfl)).mp h))
      token.raw
    rw [hraw]
    unfold payload
    rw [hparts]
    refine ⟨rfl, rfl, ?_⟩
    rw [Escape.unescape_escape hpath]
    exact Percent.decode_eq_self_iff.mpr hescaped

end Token

namespace Edit

/-- In a text whose references were rebased, each that got the path of a file has the
payload that was written for it.  It names the file, with the query and the fragment that it
had, exactly if that path has no mark of a query or a fragment and no percent sign that
spells a byte. -/
theorem names_of_isRebased_iff
    {text : Text} {edits : List Edit} (htokens : edits.map token = Token.scan text)
    (hedits : ∀ edit ∈ edits, edit.IsRebased) :
    List.Forall₂
      (fun edit rebased => ∀ (nameFile : Text → Id Text) (path : Text)
          (candidates shadowed : List Text),
        edit.text = edit.token.rebase nameFile .absolute true (.found path candidates shadowed) →
          CodePoint.char '\x00' ∉ path →
            rebased.raw = edit.text ∧
              (rebased.payload.Names edit.token.payload path ↔
                CodePoint.char '?' ∉ path ∧ CodePoint.char '#' ∉ path ∧
                  ¬Percent.Escaped path))
      edits (Token.scan (splice text edits)) := by
  refine (landed_scan_splice htokens (fits_of_rebased htokens hedits)).imp ?_
  intro edit rebased hlanded nameFile path candidates shadowed htext hnull
  have hraw : rebased.raw = edit.text := by rw [Token.raw, hlanded.reading]
  have hpath : edit.text = edit.token.withPath true path := htext
  refine ⟨hraw, ?_⟩
  rw [Token.payload, hraw, hpath]
  exact Token.names_withPath_iff hnull

theorem names_of_escaped_space :
    ∃ token rebased, Token.scan "url(a.png?q#f)".text = [token] ∧
      Token.scan (splice "url(a.png?q#f)".text
        [⟨token, token.withPath true "/b (c).png".text⟩]) = [rebased] ∧
      rebased.payload.Names token.payload "/b (c).png".text := by
  have hscan : (Token.scan "url(a.png?q#f)".text).length = 1 := by decide +kernel
  obtain ⟨token, htoken⟩ := List.length_eq_one_iff.mp hscan
  refine ⟨token, ?_⟩
  have hedits : ∀ edit ∈ [(⟨token, token.withPath true "/b (c).png".text⟩ : Edit)],
      edit.IsRebased := by
    intro edit hedit
    obtain rfl := List.mem_singleton.mp hedit
    exact .inr ⟨fun _ => "b".text, .absolute, true, "/b (c).png".text, [], [],
      List.cons_ne_nil _ _, List.cons_ne_nil _ _, rfl⟩
  have htokens : [(⟨token, token.withPath true "/b (c).png".text⟩ : Edit)].map Edit.token =
      Token.scan "url(a.png?q#f)".text := htoken.symm
  have hrebased := names_of_isRebased_iff htokens hedits
  rcases List.forall₂_cons_left_iff.mp hrebased with ⟨rebased, rest, hnames, hrest, hfound⟩
  obtain rfl := List.forall₂_nil_left_iff.mp hrest
  refine ⟨rebased, htoken, hfound, ?_⟩
  refine (hnames (fun _ => "b".text) "/b (c).png".text [] [] rfl (by decide)).2.mpr ?_
  refine ⟨by decide, by decide, ?_⟩
  rintro ⟨a, b, -, -, hwithin⟩
  exact absurd (hwithin.subset List.mem_cons_self) (by decide)

/-- The mark of a fragment in the name of a file cuts the path off. -/
theorem not_names_of_hash :
    ∃ token, Token.scan "url(a.png?q#f)".text = [token] ∧
      ¬(Payload.ofText (token.withPath true "/x/a#b.png".text)).Names token.payload
        "/x/a#b.png".text := by
  have hscan : (Token.scan "url(a.png?q#f)".text).length = 1 := by decide +kernel
  obtain ⟨token, htoken⟩ := List.length_eq_one_iff.mp hscan
  refine ⟨token, htoken, ?_⟩
  intro hnames
  exact ((Token.names_withPath_iff (by decide)).mp hnames).2.1 (by decide)

end Edit

end UrlRebase
