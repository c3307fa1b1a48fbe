import UrlRebase.Proofs.EscapedCharacters
import UrlRebase.Proofs.ReadBackPath

/-!
# Decoded payloads

Escapes are written, scanned and decoded by rules of their own.  A text that is spelled for a
payload scans as the payload of one reference and decodes to itself, whatever quotation mark is
around it.

The parts of a payload are cut at its marks and not at its units, so a mark may be cut off the
backslash before it.  The parts decode to what the payload does unless that happens: a backslash
at the end of a part stays, while in the payload it is dropped with its escape.
-/

namespace UrlRebase

namespace Token

/-- A spelled text in parentheses is one reference, and its payload decodes to the text. -/
theorem scan_escape
    {value : Text} {quote : Quote} (hvalue : value ≠ []) (hnull : CodePoint.char '\x00' ∉ value) :
    ∃ token, scan ("url(".text ++ quote.mark ++ escape quote value ++ quote.mark ++ ")".text) =
        [token] ∧
      token.start = 0 ∧
      token.finish =
        ("url(".text ++ quote.mark ++ escape quote value ++ quote.mark ++ ")".text).length ∧
      token.quote = quote ∧ token.raw = escape quote value ∧ unescape token.raw = value := by
  generalize hreading : (⟨[], quote, escape quote value, []⟩ : Reading) = reading
  have hspelled : Reading.Spelled quote reading.closing (escape quote value) := by
    have hescape : Reading.Spelled quote reading.closing (escape quote value ++ []) :=
      Escape.spelled_escape value .nil
    rwa [List.append_nil] at hescape
  have hwellFormed : reading.WellFormed := by
    subst hreading
    exact ⟨by simp, by simp, Escape.escape_ne_nil hvalue, hspelled⟩
  have htext : "url(".text ++ quote.mark ++ escape quote value ++ quote.mark ++ ")".text =
      "url(".text ++ (reading.written ++ []) := by
    subst hreading
    simp [Reading.written]
  have hstarts : Segment.Starts none ("url(".text ++ (reading.written ++ []))
      (.reference "url(".text reading) [] :=
    .reference ⟨'u', 'r', 'l', rfl, .inl rfl, .inl rfl, .inl rfl⟩ rfl hwellFormed
  refine ⟨⟨0, 0, Place.start, reading⟩, ?_, rfl, ?_, ?_, ?_, ?_⟩
  · rw [htext, scan, hstarts.split_eq, Segment.split]
    rfl
  · rw [htext, List.append_nil, List.length_append]
    simp [finish, length, openingLength, String.text]
  · rw [← hreading]
    rfl
  · rw [← hreading]
    rfl
  · rw [← hreading]
    exact Escape.unescape_escape hnull

theorem scan_escape_of_controls :
    ∃ (value : Text) (token : Token), value = "\nf 'a\"(b)\\7\x7f".text ∧
      (value ≠ [] ∧ CodePoint.char '\x00' ∉ value) ∧
      escape .none value = "\\a f\\ \\'a\\\"\\(b\\)\\\\7\\7f ".text ∧
      scan ("url(".text ++ escape .none value ++ ")".text) = [token] ∧
      unescape token.raw = value := by
  have hvalue : "\nf 'a\"(b)\\7\x7f".text ≠ [] ∧
      CodePoint.char '\x00' ∉ "\nf 'a\"(b)\\7\x7f".text := by
    decide
  obtain ⟨token, hscan, -, -, -, -, hback⟩ :=
    @scan_escape _ .none hvalue.1 hvalue.2
  refine ⟨_, token, rfl, hvalue, by decide +kernel, ?_, hback⟩
  simpa [Quote.mark] using hscan

end Token

/-! ## Parts of payloads -/

theorem Text.eq_of_mem_head?_cut
    {separator c : CodePoint} {text : Text} (hc : c ∈ (text.cut separator).2.head?) :
    c = separator := by
  rcases cut_snd_eq separator text with hnil | ⟨rest, hrest⟩
  · simp [hnil] at hc
  · rw [hrest] at hc
    exact (Option.some.inj hc).symm

namespace Payload

open Escape Reading

/-- Whether a mark that the query or the fragment starts with is escaped. -/
def CutsEscape (payload : Payload) : Prop :=
  (payload.query ≠ [] ∧ EscapesNext payload.path) ∨
    (payload.fragment ≠ [] ∧ EscapesNext (payload.path ++ payload.query))

/-- The path as the author means it: up to the first mark that no backslash takes with it. -/
def authoredPath : Text → Text
  | [] => []
  | '\\' :: [] => ['\\']
  | '\\' :: c :: rest => '\\' :: c :: authoredPath rest
  | c :: rest => if c = '?' ∨ c = '#' then [] else c :: authoredPath rest

section Cut

variable {quote : Quote} {before rest behind : Text} {mark : CodePoint}

/-- A mark that is not escaped separates what decodes apart; one that is leaves the backslash
before it behind. -/
theorem unescape_mark
    (hraw : Spelled quote behind (before ++ mark :: rest)) (hmark : mark = '?' ∨ mark = '#') :
    (¬EscapesNext before →
      unescape before ++ unescape (mark :: rest) = unescape (before ++ mark :: rest)) ∧
    (EscapesNext before → ∃ name, before = name ++ [.char '\\'] ∧
      unescape before = unescape name ++ [.char '\\'] ∧
      ∀ tail, unescape (before ++ mark :: tail) = unescape name ++ unescape (mark :: tail)) := by
  have hshape : Text.isHex mark = false ∧ isBlank mark = false ∧ mark ≠ '\n' ∧ mark ≠ '\\' := by
    rcases hmark with rfl | rfl <;> decide
  obtain ⟨hhex, hblank, hbreak, hbackslash⟩ := hshape
  constructor
  · intro hplain
    have hleft : Spelled quote (mark :: rest) before :=
      (hraw.cut hplain hhex hblank).1.of_head? rfl
    exact (hleft.unescape_append (by simpa using hbreak)).symm
  · intro hescaped
    obtain ⟨name, rfl, hname⟩ := exists_of_escapesNext hescaped
    rw [List.append_assoc, List.singleton_append] at hraw
    have hleft := (hraw.cut hname (by decide) (by decide)).1
    have hescape (tail : Text) : unescape (name ++ .char '\\' :: tail) =
        unescape name ++ unescape (.char '\\' :: tail) := by
      have hname : Spelled quote (.char '\\' :: tail) name := hleft.of_head? rfl
      exact hname.unescape_append (by simp)
    refine ⟨name, rfl, ?_, ?_⟩
    · rw [hescape, unescape]
    · intro tail
      rw [List.append_assoc, List.singleton_append, hescape, unescape, if_neg (by simp [hhex]),
        unescape_cons hbackslash]

/-- A payload decodes part by part where its cut is not escaped, and to one character less
than its parts where it is. -/
theorem unescape_cut
    (hraw : Spelled quote behind (before ++ rest))
    (hmark : ∀ mark ∈ rest.head?, mark = '?' ∨ mark = '#') :
    (¬(rest ≠ [] ∧ EscapesNext before) →
      unescape before ++ unescape rest = unescape (before ++ rest)) ∧
    (rest ≠ [] ∧ EscapesNext before →
      (unescape before ++ unescape rest).length = (unescape (before ++ rest)).length + 1) := by
  cases rest with
  | nil => simp [unescape]
  | cons mark rest =>
      obtain ⟨hplain, hescaped⟩ := unescape_mark hraw (hmark mark rfl)
      refine ⟨fun h => hplain fun hnext => h ⟨by simp, hnext⟩, ?_⟩
      rintro ⟨-, hnext⟩
      obtain ⟨name, -, hbefore, hwhole⟩ := hescaped hnext
      rw [hbefore, hwhole]
      simp only [List.length_append, List.length_singleton]
      omega

theorem length_unescape_le
    (hraw : Spelled quote behind (before ++ rest))
    (hmark : ∀ mark ∈ rest.head?, mark = '?' ∨ mark = '#') :
    (unescape (before ++ rest)).length ≤ (unescape before ++ unescape rest).length := by
  obtain ⟨hplain, hescaped⟩ := unescape_cut hraw hmark
  by_cases hcut : rest ≠ [] ∧ EscapesNext before
  · rw [hescaped hcut]
    exact Nat.le_succ _
  · rw [hplain hcut]

end Cut

theorem mark_of_fragment (raw : Text) :
    ∀ mark ∈ (ofText raw).fragment.head?, mark = '?' ∨ mark = '#' :=
  fun _ hmark => .inr (Text.eq_of_mem_head?_cut hmark)

theorem mark_of_query_fragment (raw : Text) :
    ∀ mark ∈ ((ofText raw).query ++ (ofText raw).fragment).head?, mark = '?' ∨ mark = '#' := by
  intro mark hmark
  rw [List.head?_append, Option.mem_def, Option.or_eq_some_iff] at hmark
  rcases hmark with hquery | ⟨-, hfragment⟩
  · exact .inl (Text.eq_of_mem_head?_cut hquery)
  · exact mark_of_fragment raw mark hfragment

/-- Behind a mark of the query only what stands behind the mark counts. -/
theorem cutsEscape_iff (raw : Text) :
    (ofText raw).CutsEscape ↔
      ((ofText raw).query ++ (ofText raw).fragment ≠ [] ∧ EscapesNext (ofText raw).path) ∨
        ((ofText raw).fragment ≠ [] ∧ EscapesNext (ofText raw).query) := by
  cases hquery : (ofText raw).query with
  | nil =>
      unfold CutsEscape
      simp [hquery, not_escapesNext_nil]
  | cons mark rest =>
      have hmem : mark ∈ (ofText raw).query.head? := by
        rw [hquery]
        rfl
      have hmark : mark = '?' := Text.eq_of_mem_head?_cut hmem
      have hplain (before : Text) : ¬EscapesNext (before ++ [mark]) := by
        rw [escapesNext_concat_iff, hmark]
        simp
      have hsame (before : Text) : EscapesNext (before ++ mark :: rest) ↔ EscapesNext rest := by
        rw [← List.singleton_append, ← List.append_assoc, escapesNext_append_iff (hplain before)]
      unfold CutsEscape
      rw [hquery, hsame, ← List.nil_append (mark :: rest), hsame]
      simp

/-! ## The path that is meant -/

theorem authoredPath_cons {c : CodePoint} (hc : c ≠ '\\') (rest : Text) :
    authoredPath (c :: rest) = if c = '?' ∨ c = '#' then [] else c :: authoredPath rest :=
  authoredPath.eq_4 c rest (fun h _ => hc h) (fun _ _ h _ => hc h)

/-- A text without marks that ends in whole escapes is a part of the path. -/
theorem authoredPath_append
    {path : Text} (hquery : CodePoint.char '?' ∉ path) (hfragment : CodePoint.char '#' ∉ path)
    (hpath : ¬EscapesNext path) (rest : Text) :
    authoredPath (path ++ rest) = path ++ authoredPath rest := by
  fun_induction authoredPath path with
  | case1 => rfl
  | case2 => exact absurd escapesNext_backslash hpath
  | case3 c more ih =>
      have hsplit : CodePoint.char '\\' :: c :: more = [.char '\\', c] ++ more := rfl
      rw [hsplit, escapesNext_append_iff (not_escapesNext_pair c)] at hpath
      simp only [List.mem_cons, not_or] at hquery hfragment
      rw [List.cons_append, List.cons_append, authoredPath,
        ih hquery.2.2 hfragment.2.2 hpath]
      rfl
  | case4 c more _ _ hmark =>
      rcases hmark with rfl | rfl
      · exact absurd List.mem_cons_self hquery
      · exact absurd List.mem_cons_self hfragment
  | case5 c more hlast hescape hmark ih =>
      have hc := Segment.ne_backslash_of_cases hlast hescape
      rw [← List.singleton_append, escapesNext_append_iff (not_escapesNext_singleton hc)] at hpath
      simp only [List.mem_cons, not_or] at hquery hfragment
      rw [List.cons_append, authoredPath_cons hc, if_neg hmark, ih hquery.2 hfragment.2 hpath,
        List.cons_append]

/-- The path of a payload is the one that is meant if the mark behind it is not escaped. -/
theorem authoredPath_eq_path {raw : Text} (hpath : ¬EscapesNext (ofText raw).path) :
    authoredPath raw = (ofText raw).path := by
  have hrest : authoredPath ((ofText raw).query ++ (ofText raw).fragment) = [] := by
    cases hshape : (ofText raw).query ++ (ofText raw).fragment with
    | nil => rfl
    | cons mark rest =>
        have hmark := mark_of_query_fragment raw mark (by rw [hshape]; rfl)
        have hbackslash : mark ≠ '\\' := by
          rcases hmark with rfl | rfl <;> decide
        rw [authoredPath_cons hbackslash, if_pos hmark]
  have hwhole := toText_ofText raw
  rw [toText, List.append_assoc] at hwhole
  nth_rewrite 1 [← hwhole]
  rw [authoredPath_append (notMem_path (.inl rfl) raw) (notMem_path (.inr rfl) raw) hpath, hrest,
    List.append_nil]

theorem unescape_path_iff {quote : Quote} {raw behind : Text} (hraw : Spelled quote behind raw) :
    unescape (ofText raw).path = unescape (authoredPath raw) ↔
      ¬EscapesNext (ofText raw).path := by
  constructor
  · intro heq hnext
    have hwhole := toText_ofText raw
    rw [toText, List.append_assoc] at hwhole
    cases hshape : (ofText raw).query ++ (ofText raw).fragment with
    | nil =>
        rw [hshape, List.append_nil] at hwhole
        exact hraw.not_escapesNext (hwhole ▸ hnext)
    | cons mark rest =>
        have hmark := mark_of_query_fragment raw mark (by rw [hshape]; rfl)
        rw [hshape] at hwhole
        rw [← hwhole] at hraw
        obtain ⟨name, hpath, hdangling, hescaped⟩ := (unescape_mark hraw hmark).2 hnext
        have hname : ¬EscapesNext name := by
          rw [hpath, escapesNext_concat_iff] at hnext
          exact hnext.2
        have hquery := notMem_path (.inl rfl) raw
        have hfragment := notMem_path (.inr rfl) raw
        rw [hpath, List.mem_append, not_or] at hquery hfragment
        have hauthored : authoredPath raw = (ofText raw).path ++ mark :: authoredPath rest := by
          nth_rewrite 1 [← hwhole]
          rw [hpath, List.append_assoc, authoredPath_append hquery.1 hfragment.1 hname,
            List.append_assoc]
          rfl
        rw [hauthored, hescaped, hdangling, List.append_cancel_left_eq] at heq
        rcases hmark with rfl | rfl
        · rw [unescape_cons (by decide)] at heq
          simp at heq
        · rw [unescape_cons (by decide)] at heq
          simp at heq
  · intro hpath
    rw [authoredPath_eq_path hpath]

theorem unescape_parts_iff {quote : Quote} {raw behind : Text} (hraw : Spelled quote behind raw) :
    unescape (ofText raw).path ++ unescape (ofText raw).query ++ unescape (ofText raw).fragment =
      unescape raw ↔ ¬(ofText raw).CutsEscape := by
  have hwhole := toText_ofText raw
  rw [toText, List.append_assoc] at hwhole
  have hpath : Spelled quote behind
      ((ofText raw).path ++ ((ofText raw).query ++ (ofText raw).fragment)) := by
    rwa [hwhole]
  have hrest := spelled_query_fragment hraw
  obtain ⟨hfirst, hfirstCut⟩ := unescape_cut hpath (mark_of_query_fragment raw)
  obtain ⟨hsecond, hsecondCut⟩ := unescape_cut hrest (mark_of_fragment raw)
  have hfirstLe := length_unescape_le hpath (mark_of_query_fragment raw)
  have hsecondLe := length_unescape_le hrest (mark_of_fragment raw)
  rw [hwhole] at hfirst hfirstCut hfirstLe
  rw [cutsEscape_iff, not_or, List.append_assoc]
  constructor
  -- An escaped mark costs a character, and the other cut gains none.
  · intro heq
    have hlength := congrArg List.length heq
    simp only [List.length_append] at hlength hfirstCut hsecondCut hfirstLe hsecondLe
    refine ⟨fun hcut => ?_, fun hcut => ?_⟩
    · have hmore := hfirstCut hcut
      omega
    · have hmore := hsecondCut hcut
      omega
  · rintro ⟨hnone, hnone'⟩
    rw [hsecond hnone', hfirst hnone]

end Payload

/-! ## Parts of tokens -/

namespace Token

open Escape

/-- The parts of a token's payload decode to what the payload does exactly if no mark that
they are cut at is escaped, and its path to the path that is meant exactly if the mark behind
the path is not; then the path that is meant is looked up. -/
theorem unescape_payload_iff {text : Text} {token : Token} (hmem : token ∈ scan text) :
    (unescape token.payload.path ++ unescape token.payload.query ++
        unescape token.payload.fragment = unescape token.raw ↔ ¬token.payload.CutsEscape) ∧
    (unescape token.payload.path = unescape (Payload.authoredPath token.raw) ↔
      ¬EscapesNext token.payload.path) ∧
    (¬EscapesNext token.payload.path → ∀ (searchPath : SearchPath) (directory : Text),
      searchPath.resolve directory token.payload =
        searchPath.resolve directory
          { token.payload with path := Payload.authoredPath token.raw }) := by
  have hspelled := (wellFormed_of_mem_scan hmem).spelled
  refine ⟨Payload.unescape_parts_iff hspelled, Payload.unescape_path_iff hspelled, ?_⟩
  intro hpath searchPath directory
  have hauthored : Payload.authoredPath token.raw = token.payload.path :=
    Payload.authoredPath_eq_path hpath
  rw [hauthored]

theorem unescape_payload_of_plain_marks :
    ∃ token, token ∈ scan "url(a\\23 b.png?q\\?\\\\#f)".text ∧
      token.payload = ⟨"a\\23 b.png".text, "?q\\?\\\\".text, "#f".text⟩ ∧
      unescape token.payload.path ++ unescape token.payload.query ++
        unescape token.payload.fragment = unescape token.raw ∧
      unescape token.payload.path = unescape (Payload.authoredPath token.raw) ∧
      ∀ (searchPath : SearchPath) (directory : Text),
        searchPath.resolve directory token.payload =
          searchPath.resolve directory
            { token.payload with path := Payload.authoredPath token.raw } := by
  have hscan : scan "url(a\\23 b.png?q\\?\\\\#f)".text =
      [⟨0, 0, ⟨0, 0⟩, ⟨[], .none, "a\\23 b.png?q\\?\\\\#f".text, []⟩⟩] := by
    decide +kernel
  have hmem := hscan ▸ List.mem_singleton_self _
  obtain ⟨hparts, hpath, hresolve⟩ := unescape_payload_iff hmem
  refine ⟨_, hmem, by decide +kernel, hparts.mpr ?_, hpath.mpr ?_, hresolve ?_⟩
  · unfold Payload.CutsEscape EscapesNext
    decide +kernel
  · unfold EscapesNext
    decide +kernel
  · unfold EscapesNext
    decide +kernel

/-- A number sign starts the fragment although it is escaped. -/
theorem exists_cut_escape :
    ∃ token, token ∈ scan "url(a\\#b.png)".text ∧
      token.payload = ⟨"a\\".text, [], "#b.png".text⟩ ∧
      unescape token.payload.path ++ unescape token.payload.query ++
        unescape token.payload.fragment ≠ unescape token.raw ∧
      unescape token.payload.path = "a\\".text ∧
      unescape (Payload.authoredPath token.raw) = "a#b.png".text := by
  refine ⟨⟨0, 0, ⟨0, 0⟩, ⟨[], .none, "a\\#b.png".text, []⟩⟩, ?_⟩
  decide +kernel

end Token

end UrlRebase
