import UrlRebase.Proofs.EscapedQuotes

/-!
# Texts in step

Two texts with the same lines, but for what trails at the ends of these, are scanned in step if
no string goes over the end of a line: a segment of one is followed by a segment of the other
that matches it, or both lines end.  Only carriage returns, backslashes and full stops may
trail, of which none is part of an opening, of the end of a comment or of a quotation mark.  So
both texts have the same tokens at the same lines and columns.
-/

namespace UrlRebase

namespace Text

/-- Whether two texts that have the same lines may differ in this character at their ends. -/
def IsTrailing (c : CodePoint) : Prop :=
  c = '\r' ∨ c = '\\' ∨ c = '.'

instance : DecidablePred IsTrailing := fun _ => inferInstanceAs (Decidable (_ ∨ _))

theorem notMem_of_isTrailing
    {trail : Text} (htrail : ∀ c ∈ trail, IsTrailing c) {d : CodePoint} (hd : ¬IsTrailing d) :
    d ∉ trail :=
  fun hmem => hd (htrail d hmem)

/-- Whether two texts have the same lines but for what trails at the ends of these. -/
inductive SameLines : Text → Text → Prop
  | nil : SameLines [] []
  | char {c : CodePoint} {left right : Text} (hc : c ≠ '\n') (h : SameLines left right) :
      SameLines (c :: left) (c :: right)
  | lineEnd {trail trail' left right : Text} (htrail : ∀ c ∈ trail, IsTrailing c)
      (htrail' : ∀ c ∈ trail', IsTrailing c) (h : SameLines left right) :
      SameLines (trail ++ .char '\n' :: left) (trail' ++ .char '\n' :: right)

namespace SameLines

variable {left right : Text}

theorem refl (text : Text) : SameLines text text := by
  induction text with
  | nil => exact .nil
  | cons c rest ih =>
      by_cases hc : c = '\n'
      · subst hc
        exact @lineEnd [] [] rest rest (by simp) (by simp) ih
      · exact .char hc ih

theorem symm (h : SameLines left right) : SameLines right left := by
  induction h with
  | nil => exact .nil
  | char hc _ ih => exact .char hc ih
  | lineEnd htrail htrail' _ ih => exact .lineEnd htrail' htrail ih

/-- What stands in one line and does not trail there is in both texts. -/
theorem exists_append
    {front : Text} (h : SameLines (front ++ left) right) (hfront : .char '\n' ∉ front)
    (hlast : ∀ c ∈ front.getLast?, ¬IsTrailing c) :
    ∃ right', right = front ++ right' ∧ SameLines left right' := by
  generalize htext : front ++ left = text at h
  induction h generalizing front with
  | nil =>
      obtain ⟨rfl, rfl⟩ := List.append_eq_nil_iff.mp htext
      exact ⟨[], rfl, .nil⟩
  | @char c text right hc h ih =>
      cases front with
      | nil =>
          subst htext
          exact ⟨c :: right, rfl, .char hc h⟩
      | cons d front =>
          obtain ⟨rfl, hrest⟩ := List.cons.inj htext
          have hlast' : ∀ e ∈ front.getLast?, ¬IsTrailing e := by
            intro e he
            refine hlast e ?_
            rw [Option.mem_def] at he ⊢
            rw [List.getLast?_cons, he]
            rfl
          obtain ⟨right', rfl, hright⟩ :=
            ih (fun hmem => hfront (List.mem_cons_of_mem d hmem)) hlast' hrest
          exact ⟨right', rfl, hright⟩
  | @lineEnd trail trail' text right htrail htrail' h =>
      obtain ⟨middle, rfl, rfl⟩ := exists_append_of_notMem htext hfront
      cases hend : front.getLast? with
      | none =>
          obtain rfl := List.getLast?_eq_none_iff.mp hend
          exact ⟨_, rfl, .lineEnd htrail htrail' h⟩
      | some c =>
          have hmem := List.mem_append_left middle (List.mem_of_getLast? hend)
          exact absurd (htrail c hmem) (hlast c hend)

theorem head?_eq_some
    {c : CodePoint} (h : SameLines left right) (hhead : left.head? = some c) (hc : c ≠ '\n')
    (htrailing : ¬IsTrailing c) :
    right.head? = some c := by
  obtain ⟨rest, rfl⟩ := List.head?_eq_some_iff.mp hhead
  have hfront : SameLines ([c] ++ rest) right := h
  obtain ⟨right', rfl, -⟩ :=
    hfront.exists_append (by simpa using hc.symm) (by simpa using htrailing)
  rfl

theorem getLast?_eq (h : SameLines left right) : left.getLast? = right.getLast? := by
  induction h with
  | nil => rfl
  | char _ _ ih => rw [List.getLast?_cons, List.getLast?_cons, ih]
  | lineEnd _ _ _ ih =>
      rw [List.getLast?_append, List.getLast?_append, List.getLast?_cons, List.getLast?_cons, ih]
      rfl

end SameLines

end Text

open Text

theorem Place.after_lineEnd
    {trail : Text} (htrail : ∀ c ∈ trail, IsTrailing c) (place : Place) (left : Text) :
    place.after (trail ++ .char '\n' :: left) = (⟨place.line + 1, 0⟩ : Place).after left := by
  rw [after_append, after_of_notMem (notMem_of_isTrailing htrail (by decide)), after_cons, step,
    if_pos rfl]

theorem Text.SameLines.after_eq {left right : Text} (h : SameLines left right) (place : Place) :
    place.after left = place.after right := by
  induction h generalizing place with
  | nil => rfl
  | char _ _ ih => exact ih _
  | lineEnd htrail htrail' _ ih =>
      rw [Place.after_lineEnd htrail, Place.after_lineEnd htrail', ih]

/-! ## Insides of comments and strings -/

namespace Segment

/-- Whether two texts agree in what is taken from them and in what is left. -/
structure TakenAlike (body : Text → Text) (left right : Text) : Prop where
  taken : SameLines (body left) (body right)
  behind : SameLines (left.drop (body left).length) (right.drop (body right).length)

namespace TakenAlike

variable {body : Text → Text} {left right : Text}

theorem of_append
    {inside inside' behind behind' : Text} (hleft : body (inside ++ behind) = inside)
    (hright : body (inside' ++ behind') = inside') (hinside : SameLines inside inside')
    (hbehind : SameLines behind behind') :
    TakenAlike body (inside ++ behind) (inside' ++ behind') := by
  constructor
  · rwa [hleft, hright]
  · rwa [hleft, hright, List.drop_left, List.drop_left]

theorem char
    {c : CodePoint} (hc : c ≠ '\n') (h : TakenAlike body left right)
    (hleft : body (c :: left) = c :: body left) (hright : body (c :: right) = c :: body right) :
    TakenAlike body (c :: left) (c :: right) := by
  constructor
  · rw [hleft, hright]
    exact .char hc h.taken
  · rw [hleft, hright]
    exact h.behind

theorem lineEnd
    {trail trail' : Text} (htrail : ∀ c ∈ trail, IsTrailing c)
    (htrail' : ∀ c ∈ trail', IsTrailing c) (h : TakenAlike body left right)
    (hleft : body (trail ++ .char '\n' :: left) = trail ++ .char '\n' :: body left)
    (hright : body (trail' ++ .char '\n' :: right) = trail' ++ .char '\n' :: body right) :
    TakenAlike body (trail ++ .char '\n' :: left) (trail' ++ .char '\n' :: right) := by
  have hdrop (trail left : Text) (taken : Text) :
      (trail ++ CodePoint.char '\n' :: left).drop
        (trail ++ CodePoint.char '\n' :: taken).length = left.drop taken.length := by
    rw [List.length_append, List.drop_length_add_append]
    rfl
  constructor
  · rw [hleft, hright]
    exact .lineEnd htrail htrail' h.taken
  · rw [hleft, hright, hdrop, hdrop]
    exact h.behind

end TakenAlike

theorem commentBody_append_of_notMem
    {front : Text} (hfront : .char '*' ∉ front) (rest : Text) :
    commentBody (front ++ rest) = front ++ commentBody rest := by
  induction front with
  | nil => rfl
  | cons c front ih =>
      have hc : c ≠ '*' := fun h => hfront (h ▸ List.mem_cons_self)
      rw [List.cons_append, commentBody_cons fun h => hc h.1,
        ih fun hmem => hfront (List.mem_cons_of_mem c hmem), List.cons_append]

theorem takenAlike_commentBody {left right : Text} (h : SameLines left right) :
    TakenAlike commentBody left right := by
  induction h with
  | nil => exact ⟨.nil, .nil⟩
  | @char c left right hc h ih =>
      have hslash {text text' : Text} (h : SameLines text text')
          (hend : c = '*' ∧ text.head? = some (.char '/')) :
          c = '*' ∧ text'.head? = some (.char '/') :=
        ⟨hend.1, h.head?_eq_some hend.2 (by decide) (by decide)⟩
      by_cases hend : c = '*' ∧ left.head? = some (.char '/')
      · obtain ⟨rfl, hleft⟩ := hend
        obtain ⟨left, rfl⟩ := List.head?_eq_some_iff.mp hleft
        have hfront : SameLines (endMark ++ left) (.char '*' :: right) := .char hc h
        obtain ⟨right', hright, hbehind⟩ := hfront.exists_append (by decide) (by decide)
        rw [hright]
        exact @TakenAlike.of_append _ endMark endMark _ _ rfl rfl (.refl _) hbehind
      · have hend' : ¬(c = '*' ∧ right.head? = some (.char '/')) := fun hright =>
          hend (hslash h.symm hright)
        exact .char hc ih (commentBody_cons hend) (commentBody_cons hend')
  | lineEnd htrail htrail' _ ih =>
      have hbody {trail : Text} (htrail : ∀ c ∈ trail, IsTrailing c) (left : Text) :
          commentBody (trail ++ .char '\n' :: left) = trail ++ .char '\n' :: commentBody left := by
        rw [commentBody_append_of_notMem (notMem_of_isTrailing htrail (by decide)),
          commentBody_cons fun h => absurd h.1 (by decide)]
      exact .lineEnd htrail htrail' ih (hbody htrail _) (hbody htrail' _)

/-! ## Strings -/

theorem notMem_dropLast_of_cons
    {c d : CodePoint} {rest : Text} (h : d ∉ (c :: rest).dropLast) : d ∉ rest.dropLast := by
  cases rest with
  | nil => simp
  | cons e rest => exact fun hmem => h (List.mem_cons_of_mem c hmem)

theorem notMem_dropLast_cons
    {c d : CodePoint} {rest : Text} (hc : c ≠ d) (hrest : d ∉ rest.dropLast) :
    d ∉ (c :: rest).dropLast := by
  cases rest with
  | nil => simp
  | cons e rest =>
      rw [List.dropLast_cons_cons, List.mem_cons, not_or]
      exact ⟨hc.symm, hrest⟩

theorem stringBody_eq_nil_iff {quote : CodePoint} {text : Text} :
    stringBody quote text = [] ↔ text = [] := by
  fun_cases stringBody quote text <;> simp

section String

variable {quote : CodePoint} {left right : Text}

theorem stringBody_newline
    (h : .char '\n' ∉ (.char '\n' :: stringBody quote left).dropLast) :
    left = [] := by
  by_contra hleft
  rw [List.dropLast_cons_of_ne_nil (mt stringBody_eq_nil_iff.mp hleft)] at h
  exact h List.mem_cons_self

/-- A string that ends at the first newline in it takes all up to there, be it that a backslash
comes before or not. -/
theorem stringBody_lineEnd
    (hquote : ¬IsTrailing quote) {trail : Text} (htrail : ∀ c ∈ trail, IsTrailing c) :
    (.char '\n' ∉ (stringBody quote (trail ++ .char '\n' :: left)).dropLast →
      stringBody quote (trail ++ .char '\n' :: left) = trail ++ [.char '\n']) ∧
    (.char '\n' ∉ (stringBody quote (.char '\\' :: (trail ++ .char '\n' :: left))).dropLast →
      stringBody quote (.char '\\' :: (trail ++ .char '\n' :: left)) =
        .char '\\' :: (trail ++ [.char '\n'])) := by
  induction trail with
  | nil =>
      refine ⟨fun _ => ?_, fun h => ?_⟩
      · rw [List.nil_append, stringBody_cons (by decide), if_pos (.inr rfl), List.nil_append]
      · rw [List.nil_append, stringBody] at h ⊢
        obtain rfl := stringBody_newline (notMem_dropLast_of_cons h)
        rfl
  | cons c trail ih =>
      obtain ⟨hplain, hescaped⟩ := ih fun d hd => htrail d (List.mem_cons_of_mem c hd)
      have hc : ¬(c = quote ∨ c = '\n') := by
        have htrailing := htrail c List.mem_cons_self
        rintro (rfl | rfl)
        · exact hquote htrailing
        · exact absurd htrailing (by decide)
      refine ⟨fun h => ?_, fun h => ?_⟩
      · by_cases hbackslash : c = '\\'
        · subst hbackslash
          exact hescaped h
        · rw [List.cons_append, stringBody_cons hbackslash, if_neg hc] at h ⊢
          rw [hplain (notMem_dropLast_of_cons h), List.cons_append]
      · rw [List.cons_append, stringBody] at h ⊢
        rw [hplain (notMem_dropLast_of_cons (notMem_dropLast_of_cons h)), List.cons_append]

theorem takenAlike_lineEnd
    (hquote : ¬IsTrailing quote) {trail trail' : Text} (htrail : ∀ c ∈ trail, IsTrailing c)
    (htrail' : ∀ c ∈ trail', IsTrailing c) (h : SameLines left right)
    (hleft : .char '\n' ∉ (stringBody quote (trail ++ .char '\n' :: left)).dropLast)
    (hright : .char '\n' ∉ (stringBody quote (trail' ++ .char '\n' :: right)).dropLast) :
    TakenAlike (stringBody quote) (trail ++ .char '\n' :: left)
      (trail' ++ .char '\n' :: right) := by
  have hbody := (stringBody_lineEnd hquote htrail).1 hleft
  have hbody' := (stringBody_lineEnd hquote htrail').1 hright
  rw [List.append_cons] at hbody hbody' ⊢
  rw [List.append_cons trail']
  exact .of_append hbody hbody' (.lineEnd htrail htrail' .nil) h

/-- Strings that end at the first newline in them are alike, be it that a backslash comes before
or not. -/
theorem takenAlike_stringBody (hquote : ¬IsTrailing quote) (h : SameLines left right) :
    (.char '\n' ∉ (stringBody quote left).dropLast →
      .char '\n' ∉ (stringBody quote right).dropLast →
      TakenAlike (stringBody quote) left right) ∧
    (.char '\n' ∉ (stringBody quote (.char '\\' :: left)).dropLast →
      .char '\n' ∉ (stringBody quote (.char '\\' :: right)).dropLast →
      TakenAlike (stringBody quote) (.char '\\' :: left) (.char '\\' :: right)) := by
  induction h with
  | nil => exact ⟨fun _ _ => ⟨.nil, .nil⟩, fun _ _ => ⟨.refl _, .nil⟩⟩
  | @char c left right hc h ih =>
      refine ⟨fun hleft hright => ?_, fun hleft hright => ?_⟩
      · by_cases hbackslash : c = '\\'
        · subst hbackslash
          exact ih.2 hleft hright
        by_cases hend : c = quote ∨ c = '\n'
        · have hbody (text : Text) : stringBody quote (c :: text) = [c] := by
            rw [stringBody_cons hbackslash, if_pos hend]
          exact @TakenAlike.of_append _ [c] [c] _ _ (hbody left) (hbody right) (.refl _) h
        · have hbody (text : Text) : stringBody quote (c :: text) = c :: stringBody quote text := by
            rw [stringBody_cons hbackslash, if_neg hend]
          rw [hbody] at hleft hright
          exact .char hc (ih.1 (notMem_dropLast_of_cons hleft) (notMem_dropLast_of_cons hright))
            (hbody left) (hbody right)
      · rw [stringBody] at hleft hright
        obtain ⟨htaken, hbehind⟩ := ih.1
          (notMem_dropLast_of_cons (notMem_dropLast_of_cons hleft))
          (notMem_dropLast_of_cons (notMem_dropLast_of_cons hright))
        constructor
        · rw [stringBody, stringBody]
          exact .char (by decide) (.char hc htaken)
        · rw [stringBody, stringBody]
          exact hbehind
  | @lineEnd trail trail' left right htrail htrail' h =>
      have hescaped {trail : Text} (htrail : ∀ c ∈ trail, IsTrailing c) :
          ∀ c ∈ CodePoint.char '\\' :: trail, IsTrailing c :=
        List.forall_mem_cons.mpr ⟨by decide, htrail⟩
      exact ⟨takenAlike_lineEnd hquote htrail htrail' h,
        takenAlike_lineEnd hquote (hescaped htrail) (hescaped htrail') h⟩

end String

/-! ## Segments in step -/

/-- Whether no string goes over the end of a line. -/
def StringsOnLines (previous : Option CodePoint) (text : Text) : Prop :=
  ∀ written, .string written ∈ split previous text → .char '\n' ∉ written.dropLast

/-- Whether two segments are the same but for what trails at the ends of lines. -/
inductive Matches : Segment → Segment → Prop
  | refl (segment : Segment) : Matches segment segment
  | comment {written written' : Text} (h : SameLines written written') :
      Matches (.comment written) (.comment written')
  | string {written written' : Text} (h : SameLines written written') :
      Matches (.string written) (.string written')

theorem Matches.sameLines {segment segment' : Segment} (h : Matches segment segment') :
    SameLines segment.written segment'.written := by
  cases h with
  | refl => exact .refl _
  | comment h => exact h
  | string h => exact h

theorem IsOpening.exists_append_of_sameLines
    {opening left right : Text} (hopening : IsOpening opening)
    (h : SameLines (opening ++ left) right) :
    ∃ right', right = opening ++ right' ∧ SameLines left right' := by
  refine h.exists_append (fun hmem => absurd (hopening.not_isBreak _ hmem) (by decide)) ?_
  obtain ⟨u, r, l, rfl, -⟩ := hopening
  simp [IsTrailing]

theorem opening?_eq_none_of_sameLines
    {left right : Text} (h : SameLines left right) (hnone : opening? left = none) :
    opening? right = none := by
  rw [Option.eq_none_iff_forall_ne_some] at hnone ⊢
  intro opening hopening
  obtain ⟨hopens, rest, rfl⟩ := opening?_eq_some_iff.mp hopening
  obtain ⟨rest', rfl, -⟩ := hopens.exists_append_of_sameLines h.symm
  exact hnone opening (opening?_eq_some_iff.mpr ⟨hopens, rest', rfl⟩)

/-- A reading stands in one line and ends in a parenthesis. -/
theorem exists_append_of_wellFormed
    {reading : Reading} {left right : Text} (hreading : reading.WellFormed)
    (h : SameLines (reading.written ++ left) right) :
    ∃ right', right = reading.written ++ right' ∧ SameLines left right' := by
  refine h.exists_append
    (fun hmem => absurd (hreading.not_isBreak_written _ hmem) (by decide)) ?_
  simp [Reading.written, String.text, Text.ofChars, IsTrailing]

theorem read?_eq_none_of_sameLines
    {left right : Text} (h : SameLines left right) (hnone : Reading.read? left = none) :
    Reading.read? right = none := by
  rw [Option.eq_none_iff_forall_ne_some] at hnone ⊢
  rintro ⟨reading, rest⟩ hread
  obtain ⟨hreading, rfl⟩ := Reading.read?_eq_some_iff.mp hread
  obtain ⟨rest', rfl, -⟩ := exists_append_of_wellFormed hreading h.symm
  exact hnone (reading, rest') (hreading.read?_append rest')

/-- A segment that starts within a line has one in the other text that matches it. -/
theorem Starts.exists_matching
    {previous : Option CodePoint} {c : CodePoint} {left right behind : Text} {segment : Segment}
    (hstarts : Starts previous (c :: left) segment behind) (hc : c ≠ '\n')
    (h : SameLines left right) (hleft : StringsOnLines previous (c :: left))
    (hright : StringsOnLines previous (c :: right)) :
    ∃ segment' behind', Starts previous (c :: right) segment' behind' ∧
      Matches segment segment' ∧ SameLines behind behind' := by
  have hwhole : SameLines (c :: left) (c :: right) := .char hc h
  have hsplit := hstarts.split_eq
  generalize htext : c :: left = text at hstarts hwhole
  cases hstarts with
  | @comment body behind hbody =>
      obtain ⟨rfl, rfl⟩ := List.cons.inj htext
      have hstar : SameLines ([.char '*'] ++ (body ++ behind)) right := h
      obtain ⟨right', rfl, h'⟩ := hstar.exists_append (by decide) (by decide)
      obtain ⟨htaken, hbehind⟩ := takenAlike_commentBody h'
      rw [hbody] at htaken hbehind
      rw [List.drop_left] at hbehind
      exact ⟨_, _, starts_comment previous right',
        .comment (.char (by decide) (.char (by decide) htaken)), hbehind⟩
  | @string quote body behind hquote hbody =>
      obtain ⟨rfl, rfl⟩ := List.cons.inj htext
      have hstarts' := starts_string previous hquote right
      have hline := hleft _ (by rw [hsplit]; exact List.mem_cons_self)
      have hline' := hright _ (by rw [hstarts'.split_eq]; exact List.mem_cons_self)
      have hmark : ¬IsTrailing c := by
        rcases hquote with rfl | rfl <;> decide
      rw [← hbody] at hline
      obtain ⟨htaken, hbehind⟩ := (takenAlike_stringBody hmark h).1
        (notMem_dropLast_of_cons hline) (notMem_dropLast_of_cons hline')
      rw [hbody] at htaken hbehind
      rw [List.drop_left] at hbehind
      exact ⟨_, _, hstarts', .string (.char hc htaken), hbehind⟩
  | @reference opening reading behind hopening hprevious hreading =>
      obtain ⟨right', hright', h'⟩ := hopening.exists_append_of_sameLines hwhole
      obtain ⟨behind', rfl, hbehind⟩ := exists_append_of_wellFormed hreading h'
      rw [hright']
      exact ⟨_, _, .reference hopening hprevious hreading, .refl _, hbehind⟩
  | @malformed opening behind hopening hprevious hread =>
      obtain ⟨behind', hright', hbehind⟩ := hopening.exists_append_of_sameLines hwhole
      rw [hright']
      exact ⟨_, _, .malformed hopening hprevious (read?_eq_none_of_sameLines hbehind hread),
        .refl _, hbehind⟩
  | @plain d behind hcomment hquote hopening =>
      obtain ⟨rfl, rfl⟩ := List.cons.inj htext
      refine ⟨_, right, .plain ?_ hquote (hopening.imp_left (opening?_eq_none_of_sameLines hwhole)),
        .refl _, h⟩
      exact fun hright => hcomment
        ⟨hright.1, h.symm.head?_eq_some hright.2 (by decide) (by decide)⟩

/-- Whether two lists of segments match one by one, but for characters that trail at the ends
of lines. -/
inductive InStep : List Segment → List Segment → Prop
  | nil : InStep [] []
  | segment {segment segment' : Segment} {rest rest' : List Segment}
      (hsegment : Matches segment segment') (h : InStep rest rest') :
      InStep (segment :: rest) (segment' :: rest')
  | lineEnd {trail trail' : Text} {rest rest' : List Segment}
      (htrail : ∀ c ∈ trail, IsTrailing c) (htrail' : ∀ c ∈ trail', IsTrailing c)
      (h : InStep rest rest') :
      InStep ((trail ++ [CodePoint.char '\n']).map plain ++ rest)
        ((trail' ++ [CodePoint.char '\n']).map plain ++ rest')

theorem split_lineEnd
    {trail : Text} (htrail : ∀ c ∈ trail, IsTrailing c) (previous : Option CodePoint)
    (left : Text) :
    split previous (trail ++ .char '\n' :: left) =
      (trail ++ [CodePoint.char '\n']).map plain ++ split (some (.char '\n')) left := by
  induction trail generalizing previous with
  | nil =>
      exact (starts_plain_of_ne (by decide) (by decide) (by decide) previous left).split_eq
  | cons c trail ih =>
      have hc : c ≠ '/' ∧ ¬(c = '\'' ∨ c = '"') ∧ ¬(c = 'u' ∨ c = 'U') := by
        rcases htrail c List.mem_cons_self with rfl | rfl | rfl <;> decide
      have hstarts := starts_plain_of_ne hc.1 hc.2.1 hc.2.2 previous (trail ++ .char '\n' :: left)
      rw [List.cons_append, hstarts.split_eq, ih fun d hd => htrail d (List.mem_cons_of_mem c hd)]
      rfl

/-- Texts with the same lines fall into segments in step, if no string goes over the end of a
line. -/
theorem inStep_split
    {previous : Option CodePoint} {left right : Text} (h : SameLines left right)
    (hleft : StringsOnLines previous left) (hright : StringsOnLines previous right) :
    InStep (split previous left) (split previous right) := by
  induction hlength : left.length using Nat.strong_induction_on generalizing previous left right
  rename_i length ih
  subst hlength
  cases h with
  | nil =>
      rw [split]
      exact .nil
  | lineEnd htrail htrail' h =>
      have hrest {trail left : Text} (htrail : ∀ c ∈ trail, IsTrailing c)
          (hline : StringsOnLines previous (trail ++ .char '\n' :: left)) :
          StringsOnLines (some (.char '\n')) left := by
        intro written hmem
        refine hline written ?_
        rw [split_lineEnd htrail]
        exact List.mem_append_right _ hmem
      rw [split_lineEnd htrail, split_lineEnd htrail']
      refine .lineEnd htrail htrail' (ih _ ?_ h (hrest htrail hleft) (hrest htrail' hright) rfl)
      simp
      omega
  | @char c left right hc h =>
      obtain ⟨behind, hstarts⟩ := first_starts previous c left
      obtain ⟨segment', behind', hstarts', hmatches, hbehind⟩ :=
        hstarts.exists_matching hc h hleft hright
      generalize first previous c left = segment at hstarts hmatches
      have hrest {text behind : Text} {segment : Segment}
          (hstarts : Starts previous text segment behind) (hline : StringsOnLines previous text) :
          StringsOnLines segment.written.getLast? behind := by
        intro written hmem
        refine hline written ?_
        rw [hstarts.split_eq]
        exact List.mem_cons_of_mem segment hmem
      have hlast := hmatches.sameLines.getLast?_eq
      have hline' := hrest hstarts' hright
      rw [← hlast] at hline'
      rw [hstarts.split_eq, hstarts'.split_eq, ← hlast]
      refine .segment hmatches (ih _ ?_ hbehind (hrest hstarts hleft) hline' rfl)
      have hpos := List.length_pos_iff.mpr (begins_iff_starts.mpr hstarts).written_ne_nil
      rw [hstarts.text_eq, List.length_append]
      omega

end Segment

/-! ## Tokens -/

namespace Token

/-- All that a token tells but its offsets. -/
def placed (token : Token) : Nat × Place × Nat × Reading :=
  (token.index, token.place, token.finishColumn, token.reading)

theorem ofSegments_plain (index start : Nat) (place : Place) (text : Text)
    (rest : List Segment) :
    ofSegments index start place (text.map .plain ++ rest) =
      ofSegments index (start + text.length) (place.after text) rest := by
  induction text generalizing start place with
  | nil => rfl
  | cons c text ih =>
      have hstart : start + (c :: text).length = start + 1 + text.length := by
        rw [List.length_cons, Nat.add_right_comm, Nat.add_assoc]
      rw [hstart]
      exact ih _ _

/-- Segments in step have the same tokens at the same places. -/
theorem map_placed_of_inStep
    {segments segments' : List Segment} (h : Segment.InStep segments segments')
    (index start start' : Nat) (place : Place) :
    (ofSegments index start place segments).map placed =
      (ofSegments index start' place segments').map placed := by
  induction h generalizing index start start' place with
  | nil => rfl
  | @segment one other _ _ hsegment _ ih =>
      have hplace := hsegment.sameLines.after_eq place
      cases hsegment with
      | refl =>
          cases one with
          | reference opening reading => exact congrArg (List.cons _) (ih _ _ _ _)
          | _ => exact ih _ _ _ _
      | comment =>
          simp only [ofSegments, hplace]
          exact ih _ _ _ _
      | string =>
          simp only [ofSegments, hplace]
          exact ih _ _ _ _
  | lineEnd htrail htrail' _ ih =>
      rw [ofSegments_plain, ofSegments_plain, Place.after_lineEnd htrail,
        Place.after_lineEnd htrail']
      exact ih _ _ _ _

theorem map_placed_scan
    {left right : Text} (h : SameLines left right)
    (hleft : Segment.StringsOnLines none left) (hright : Segment.StringsOnLines none right) :
    (scan left).map placed = (scan right).map placed :=
  map_placed_of_inStep (Segment.inStep_split h hleft hright) 0 0 0 Place.start

end Token

end UrlRebase
