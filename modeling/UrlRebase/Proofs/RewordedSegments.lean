import UrlRebase.Proofs.SegmentGrammar

/-!
# Segments with other payloads

Replacing the payloads of references by other well-formed ones changes no border between
the segments of a text.  Comments, strings and single characters are cut by what is in
them and by the next few characters, and no replacement comes that close.  The one rule
that looks far ahead is the one for a `url(` that starts no reference.  Without quotation
marks its failed reading ends before the parenthesis of the next reference; with them it
ends in the string that the segmentation cuts behind it, or in the blanks after it.
-/

namespace UrlRebase

namespace Segment

/-- A segment, and the same segment or the same reference with another payload. -/
inductive Reworded : Segment → Segment → Prop
  | unchanged {segment : Segment}
      (hsegment : ∀ opening reading, segment ≠ .reference opening reading) :
      Reworded segment segment
  | reference {opening : Text} {reading : Reading} {raw : Text}
      (hopening : IsOpening opening)
      (hreading : ({ reading with raw } : Reading).WellFormed) :
      Reworded (.reference opening reading) (.reference opening { reading with raw })

/-- Two texts that are the same at least up to the parenthesis of a reference in both. -/
def Alike (text text' : Text) : Prop :=
  text = text' ∨ ∃ before opening behind behind', IsOpening opening ∧
    text = before ++ (opening ++ behind) ∧ text' = before ++ (opening ++ behind')

theorem alike_of_reworded
    {segments segments' : List Segment} (h : List.Forall₂ Reworded segments segments') :
    Alike (segments.flatMap written) (segments'.flatMap written) := by
  induction h with
  | nil => exact .inl rfl
  | @cons segment segment' rest rest' hsegment hrest ih =>
      simp only [List.flatMap_cons]
      cases hsegment with
      | unchanged =>
          rcases ih with heq | ⟨before, opening, behind, behind', hopening, heq, heq'⟩
          · exact .inl (by rw [heq])
          · refine .inr ⟨segment.written ++ before, opening, behind, behind', hopening, ?_, ?_⟩
            · rw [heq, List.append_assoc]
            · rw [heq', List.append_assoc]
      | @reference opening reading raw hopening hreading =>
          refine .inr ⟨[], opening, reading.written ++ rest.flatMap written,
            ({ reading with raw } : Reading).written ++ rest'.flatMap written, hopening,
            ?_, ?_⟩ <;>
            simp only [written, List.nil_append, List.append_assoc]

namespace Alike

variable {text text' : Text}

theorem take_eq (h : Alike text text') : text.take 4 = text'.take 4 := by
  rcases h with rfl | ⟨before, opening, behind, behind', ⟨u, r, l, rfl, -⟩, rfl, rfl⟩
  · rfl
  · have htake (rest : Text) :
        (before ++ ([u, r, l, .char '('] ++ rest)).take 4 =
          (before ++ [u, r, l, .char '(']).take 4 := by
      rw [← List.append_assoc, List.take_append_of_le_length (by simp)]
    rw [htake, htake]

theorem head?_eq (h : Alike text text') : text.head? = text'.head? := by
  have htake := congrArg List.head? h.take_eq
  simpa [List.head?_take] using htake

theorem opening?_cons_eq (h : Alike text text') (c : CodePoint) :
    opening? (c :: text) = opening? (c :: text') := by
  have htake := congrArg (fun start : Text => c :: start.take 3) h.take_eq
  apply opening?_eq_of_take_eq
  simpa [List.take_take] using htake

/-- A start of the one text without a bare parenthesis is a start of the other. -/
theorem exists_append
    (h : Alike text text') {start rest' : Text}
    (htext' : text' = start ++ rest') (hstart : Reading.Guarded start) :
    ∃ rest, text = start ++ rest := by
  rcases h with rfl | ⟨before, opening, behind, behind', hopening, rfl, rfl⟩
  · exact ⟨rest', htext'⟩
  · rcases List.append_eq_append_iff.mp htext' with ⟨inside, rfl, hinside⟩ | ⟨left, rfl, rfl⟩
    · rcases List.append_eq_append_iff.mp hinside with ⟨more, rfl, -⟩ | ⟨left, hleft, rfl⟩
      · obtain ⟨u, r, l, rfl, -, -, hl⟩ := hopening
        have hchain : Reading.Guarded [l, .char '('] := by
          refine List.IsChain.infix hstart ⟨before ++ [u, r], more, ?_⟩
          simp
        have hbackslash : l = '\\' := (List.isChain_cons_cons.mp hchain).1 rfl
        rcases hl with rfl | rfl <;> simp at hbackslash
      · exact ⟨left ++ behind, by rw [hleft]; simp only [List.append_assoc]⟩
    · exact ⟨left ++ (opening ++ behind), by simp only [List.append_assoc]⟩

end Alike

/-! ## Rules that look a few characters ahead -/

theorem commentBody_append
    {body behind behind' : Text}
    (hbody : commentBody (body ++ behind) = body) (hnil : behind = [] → behind' = []) :
    commentBody (body ++ behind') = body := by
  generalize htext : body ++ behind = text at hbody
  fun_induction commentBody text generalizing body with
  | case1 =>
      obtain ⟨rfl, rfl⟩ := List.append_eq_nil_iff.mp htext
      rw [hnil rfl]
      rfl
  | case2 rest =>
      rw [← hbody]
      rfl
  | case3 c rest hend ih =>
      subst hbody
      have hrest : commentBody rest ++ behind = rest := (List.cons.inj htext).2
      rw [List.cons_append, commentBody.eq_3 _ _ ?_, ih hrest rfl]
      intro tail hc htail
      cases hhead : commentBody rest with
      | nil =>
          rw [hhead, List.nil_append] at hrest htail
          subst hrest
          cases behind with
          | nil => simp [hnil rfl] at htail
          | cons d more =>
              unfold commentBody at hhead
              split at hhead <;> simp_all
      | cons d more =>
          rw [hhead, List.cons_append] at hrest htail
          obtain ⟨rfl, -⟩ := List.cons.inj htail
          exact hend _ hc hrest.symm

theorem stringBody_cons
    {quote c : CodePoint} (hc : c ≠ '\\') (rest : Text) :
    stringBody quote (c :: rest) =
      if c = quote ∨ c = '\n' then [c] else c :: stringBody quote rest :=
  stringBody.eq_4 quote c rest (fun h _ => hc h) (fun _ _ h _ => hc h)

theorem ne_backslash_of_cases
    {c : CodePoint} {rest : Text} (hlast : c = '\\' → rest = [] → False)
    (hescape : ∀ d more, c = '\\' → rest = d :: more → False) :
    c ≠ '\\' := by
  rintro rfl
  cases rest with
  | nil => exact hlast rfl rfl
  | cons d more => exact hescape d more rfl rfl

theorem stringBody_append
    {quote : CodePoint} {body behind behind' : Text}
    (hbody : stringBody quote (body ++ behind) = body) (hnil : behind = [] → behind' = []) :
    stringBody quote (body ++ behind') = body := by
  generalize htext : body ++ behind = text at hbody
  fun_induction stringBody quote text generalizing body with
  | case1 =>
      obtain ⟨rfl, rfl⟩ := List.append_eq_nil_iff.mp htext
      rw [hnil rfl]
      rfl
  | case2 =>
      subst hbody
      obtain rfl : behind = [] := (List.cons.inj htext).2
      rw [hnil rfl]
      rfl
  | case3 c rest ih =>
      subst hbody
      have hrest : stringBody quote rest ++ behind = rest :=
        (List.cons.inj (List.cons.inj htext).2).2
      rw [List.cons_append, List.cons_append, stringBody, ih hrest rfl]
  | case4 c rest hlast hescape hends =>
      subst hbody
      have hc := ne_backslash_of_cases hlast hescape
      rw [List.singleton_append, stringBody_cons hc, if_pos hends]
  | case5 c rest hlast hescape hgoes ih =>
      subst hbody
      have hc := ne_backslash_of_cases hlast hescape
      have hrest : stringBody quote rest ++ behind = rest := (List.cons.inj htext).2
      rw [List.cons_append, stringBody_cons hc, if_neg hgoes, ih hrest rfl]

/-! ## The rule that looks far ahead -/

theorem stringBody_append_of_forall
    {quote : CodePoint} {text : Text}
    (htext : ∀ c ∈ text, c ≠ '\\' ∧ c ≠ quote ∧ c ≠ '\n') (rest : Text) :
    stringBody quote (text ++ rest) = text ++ stringBody quote rest := by
  induction text with
  | nil => rfl
  | cons c text ih =>
      obtain ⟨hbackslash, hquote, hbreak⟩ := htext c List.mem_cons_self
      rw [List.cons_append, stringBody_cons hbackslash, if_neg (by simp [hquote, hbreak]),
        ih fun d hd => htext d (List.mem_cons_of_mem c hd), List.cons_append]

/-- A string that starts like a quoted payload ends where the payload does. -/
theorem stringBody_of_spelled
    {quote : Quote} {mark : CodePoint} {raw behind : Text}
    (hmark : quote.mark = [mark]) (hraw : Reading.Spelled quote behind raw) (rest : Text) :
    stringBody mark (raw ++ mark :: rest) = raw ++ [mark] := by
  have hmarkNe : mark ≠ '\\' ∧ Reading.isOrdinary quote mark = false ∧
      Text.isHex mark = false ∧ isBlank mark = false := by
    cases quote <;> simp only [Quote.mark, List.cons.injEq, and_true, reduceCtorEq] at hmark
    all_goals subst hmark; decide
  obtain ⟨hbackslash, hordMark, hhexMark, hblankMark⟩ := hmarkNe
  induction hraw with
  | nil => rw [List.nil_append, stringBody_cons hbackslash, if_pos (.inl rfl)]; rfl
  | @ordinary c more hc hmore ih =>
      obtain ⟨hcBackslash, hcBreak, -⟩ := Reading.isOrdinary_iff.mp hc
      have hgoes : ¬(c = mark ∨ c = '\n') := by
        rintro (rfl | rfl)
        · simp [hc] at hordMark
        · exact absurd hcBreak (by decide)
      rw [List.cons_append, stringBody_cons hcBackslash, if_neg hgoes, ih, List.cons_append]
  | @escape body more hbody hmore ih =>
      obtain ⟨c, tail, rfl, -, -, htail⟩ := Escape.body?_shape hbody
      have hplain : ∀ d ∈ tail, d ≠ '\\' ∧ d ≠ mark ∧ d ≠ '\n' := by
        intro d hd
        refine ⟨?_, ?_, ?_⟩
        · rintro rfl
          exact absurd (htail _ hd) (by decide)
        · rintro rfl
          simpa [hhexMark, hblankMark] using htail _ hd
        · rintro rfl
          exact absurd (htail _ hd) (by decide)
      simp only [List.cons_append, List.append_assoc, stringBody]
      rw [stringBody_append_of_forall hplain, ih]

theorem starts_plain_of_ne
    {c : CodePoint} (hslash : c ≠ '/') (hquote : ¬(c = '\'' ∨ c = '"'))
    (hletter : ¬(c = 'u' ∨ c = 'U')) (previous : Option CodePoint) (rest : Text) :
    Starts previous (c :: rest) (.plain c) rest := by
  refine .plain (fun h => hslash h.1) hquote (.inl ?_)
  rw [Option.eq_none_iff_forall_ne_some]
  intro opening hopening
  obtain ⟨⟨u, r, l, rfl, hu, -⟩, more, htext⟩ := opening?_eq_some_iff.mp hopening
  obtain ⟨rfl, -⟩ := List.cons.inj htext
  exact hletter hu

theorem starts_plain_of_isBlank
    {previous : Option CodePoint} {c : CodePoint} (hc : isBlank c = true) (rest : Text) :
    Starts previous (c :: rest) (.plain c) rest := by
  have hne {d : CodePoint} (hd : isBlank d = false) : c ≠ d := by
    rintro rfl
    simp [hc] at hd
  exact starts_plain_of_ne (hne rfl) (not_or.mpr ⟨hne rfl, hne rfl⟩)
    (not_or.mpr ⟨hne rfl, hne rfl⟩) previous rest

theorem alike_of_split
    {previous previous' : Option CodePoint} {text text' : Text}
    (h : List.Forall₂ Reworded (split previous text) (split previous' text')) :
    Alike text text' := by
  have halike := alike_of_reworded h
  rwa [flatMap_written, flatMap_written] at halike

/-- If a text goes on with blanks and a string after rewording, it does so before. -/
theorem exists_string_behind_blanks
    {previous : Option CodePoint} {text text' blanks rest' : Text} {quote : CodePoint}
    (hblanks : ∀ c ∈ blanks, isBlank c = true) (hquote : quote = '\'' ∨ quote = '"')
    (h : List.Forall₂ Reworded (split previous text) (split previous text'))
    (htext' : text' = blanks ++ quote :: rest') :
    ∃ behind behind', text = blanks ++ quote :: (stringBody quote rest' ++ behind) ∧
      rest' = stringBody quote rest' ++ behind' ∧ Alike behind behind' := by
  induction blanks generalizing previous text text' with
  | nil =>
      have hbody := stringBody_append_drop quote rest'
      have hstarts' := starts_string previous hquote rest'
      generalize rest'.drop (stringBody quote rest').length = behind' at hbody hstarts'
      rw [htext', List.nil_append, hstarts'.split_eq] at h
      obtain ⟨segment, segments, hsegment, hsegments, hsplit⟩ :=
        List.forall₂_cons_right_iff.mp h
      obtain ⟨behind, hstarts, rfl⟩ := starts_of_split_eq_cons hsplit
      -- Only a reference is reworded, so the string was there before.
      cases hsegment
      exact ⟨behind, behind', by rw [hstarts.text_eq]; rfl, hbody.symm,
        alike_of_split hsegments⟩
  | cons c blanks ih =>
      have hblank : isBlank c = true := hblanks c List.mem_cons_self
      have hstarts' : Starts previous (c :: (blanks ++ quote :: rest')) (.plain c)
          (blanks ++ quote :: rest') := starts_plain_of_isBlank hblank _
      rw [htext', List.cons_append, hstarts'.split_eq] at h
      obtain ⟨segment, segments, hsegment, hsegments, hsplit⟩ :=
        List.forall₂_cons_right_iff.mp h
      obtain ⟨behind, hstarts, rfl⟩ := starts_of_split_eq_cons hsplit
      cases hsegment
      obtain ⟨left, left', hbehind, hrest', halike⟩ :=
        ih (fun d hd => hblanks d (List.mem_cons_of_mem c hd)) hsegments rfl
      exact ⟨left, left', by rw [hstarts.text_eq, hbehind]; rfl, hrest', halike⟩

theorem guarded_written
    {reading : Reading} (hreading : reading.WellFormed) (hquote : reading.quote = .none) :
    Reading.Guarded reading.written := by
  have hblank {text : Text} (htext : ∀ c ∈ text, isBlank c = true) :
      ∀ c ∈ text, c ≠ '(' := by
    rintro c hc rfl
    exact absurd (htext _ hc) (by decide)
  have hclosing : ∀ c ∈ reading.closing, c ≠ '(' := by
    intro c hc
    simp only [Reading.closing, hquote, Quote.mark, List.nil_append, List.mem_append] at hc
    rcases hc with hc | hc
    · exact hblank hreading.trailing c hc
    · obtain rfl : c = ')' := by simpa [String.text] using hc
      decide
  have hspelled := hreading.spelled
  rw [hquote] at hspelled
  have hclosingHead : reading.closing.head? ≠ some (.char '(') := fun hhead =>
    hclosing _ (List.mem_of_head? hhead) rfl
  have hrest : Reading.Guarded (reading.raw ++ reading.closing) :=
    hspelled.guarded.append (Reading.guarded_of_forall hclosing) hclosingHead
  obtain ⟨c, more, hraw⟩ := List.exists_cons_of_ne_nil hreading.nonempty
  have hrawHead := hspelled.head?_ne_of_not_ordinary (c := '(') (by decide) (by decide)
  have hhead : (reading.raw ++ reading.closing).head? ≠ some (.char '(') := by
    simpa [hraw] using hrawHead
  rw [Reading.written_eq, hquote]
  exact (Reading.guarded_of_forall (hblank hreading.leading)).append hrest hhead

/-- A `url(` that starts no reference starts none after rewording. -/
theorem read?_eq_none_of_reworded
    {previous : Option CodePoint} {text text' : Text}
    (h : List.Forall₂ Reworded (split previous text) (split previous text'))
    (hnone : Reading.read? text = none) :
    Reading.read? text' = none := by
  rw [Option.eq_none_iff_forall_ne_some]
  rintro ⟨reading, rest'⟩ hread
  obtain ⟨hreading, htext'⟩ := Reading.read?_eq_some_iff.mp hread
  suffices hsuffices : ∃ rest, text = reading.written ++ rest by
    obtain ⟨rest, htext⟩ := hsuffices
    rw [htext, hreading.read?_append] at hnone
    simp at hnone
  by_cases hquote : reading.quote = .none
  -- Without marks the reading holds no bare parenthesis, so both texts start with it.
  · exact (alike_of_split h).exists_append htext' (guarded_written hreading hquote)
  -- With marks it may hold one, but its payload is then a string of both texts.
  · obtain ⟨mark, hmark, hofChar, -⟩ := Quote.exists_mark_eq hquote
    have hmarkCases : mark = '\'' ∨ mark = '"' := by
      unfold Quote.ofChar? at hofChar
      split at hofChar <;> simp_all
    have hstring :=
      stringBody_of_spelled hmark hreading.spelled (reading.trailing ++ ")".text ++ rest')
    have htext'' :
        text' = reading.leading ++ mark :: (reading.raw ++
          mark :: (reading.trailing ++ ")".text ++ rest')) := by
      rw [htext', Reading.written_eq, Reading.closing, hmark]
      simp
    obtain ⟨behind, behind', htext, hrest', halike⟩ :=
      exists_string_behind_blanks hreading.leading hmarkCases h htext''
    rw [hstring] at htext hrest'
    have hbehind' : behind' = reading.trailing ++ ")".text ++ rest' := by
      simpa using hrest'.symm
    have hguarded : Reading.Guarded (reading.trailing ++ ")".text) := by
      apply Reading.guarded_of_forall
      rintro c hc rfl
      rcases List.mem_append.mp hc with hc | hc
      · exact absurd (hreading.trailing _ hc) (by decide)
      · simp [String.text] at hc
    obtain ⟨rest, hbehind⟩ := halike.exists_append hbehind' hguarded
    refine ⟨rest, ?_⟩
    rw [htext, hbehind, Reading.written_eq, Reading.closing, hmark]
    simp

/-! ## All segments -/

theorem Starts.reworded
    {previous : Option CodePoint} {text behind behind' : Text} {segment segment' : Segment}
    (hstarts : Starts previous text segment behind) (hsegment : Reworded segment segment')
    (hbehind : List.Forall₂ Reworded (split segment.written.getLast? behind)
      (split segment.written.getLast? behind')) :
    Starts previous (segment'.written ++ behind') segment' behind' := by
  have halike := alike_of_split hbehind
  have hnil : behind = [] → behind' = [] := by
    rintro rfl
    exact List.head?_eq_none_iff.mp (halike.head?_eq.symm.trans List.head?_nil)
  cases hstarts with
  | @comment body behind hbody =>
      cases hsegment
      exact .comment (commentBody_append hbody hnil)
  | @string quote body behind hquote hbody =>
      cases hsegment
      exact .string hquote (stringBody_append hbody hnil)
  | @reference opening reading behind hopening hprevious hreading =>
      cases hsegment with
      | unchanged hsegment => exact absurd rfl (hsegment opening reading)
      | reference _ hreading' =>
          rw [written, List.append_assoc]
          exact .reference hopening hprevious hreading'
  | @malformed opening behind hopening hprevious hread =>
      cases hsegment
      exact .malformed hopening hprevious (read?_eq_none_of_reworded hbehind hread)
  | @plain c behind hcomment hquote hopening =>
      cases hsegment
      rw [written, List.singleton_append]
      refine .plain ?_ hquote ?_
      · rwa [← halike.head?_eq]
      · rwa [← halike.opening?_cons_eq]

theorem Reworded.getLast?_written_eq
    {segment segment' : Segment} (h : Reworded segment segment') :
    segment'.written.getLast? = segment.written.getLast? := by
  cases h with
  | unchanged => rfl
  | reference => simp [written, Reading.written, String.text]

/-- A text with other payloads falls into the segments with these payloads. -/
theorem split_flatMap_written_of_reworded
    {previous : Option CodePoint} {text : Text} {segments : List Segment}
    (h : List.Forall₂ Reworded (split previous text) segments) :
    split previous (segments.flatMap written) = segments := by
  generalize hsplit : split previous text = original at h
  induction h generalizing previous text with
  | nil => simp [split]
  | @cons segment segment' rest rest' hsegment hrest ih =>
      obtain ⟨behind, hstarts, hbehind⟩ := starts_of_split_eq_cons hsplit
      have hrest' := ih hbehind
      have hboth : List.Forall₂ Reworded (split segment.written.getLast? behind)
          (split segment.written.getLast? (rest'.flatMap written)) := by
        rwa [hbehind, hrest']
      rw [List.flatMap_cons, (hstarts.reworded hsegment hboth).split_eq,
        hsegment.getLast?_written_eq, hrest']

end Segment

end UrlRebase
