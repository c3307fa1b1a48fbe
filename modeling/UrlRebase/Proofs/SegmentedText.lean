import UrlRebase.Proofs.SegmentGrammar

/-!
# Segmented texts

`Segmentation` says by rules, and without computing anything but readings, how a text falls
into segments from left to right.  A comment goes on to the first end mark and a string to
the first quote or newline that no backslash takes with it, or either to the end of the
text; a reference is an opening with a reading behind it, and an opening without one is
passed over alone.  Every text has exactly one segmentation, the one that is computed.
-/

namespace UrlRebase

namespace Segment

/-! ## Comments -/

def endMark : Text := ['*', '/']

/-- What a comment has behind its opening: all up to the first end mark, or all that there
is if no end mark comes. -/
inductive CommentBody : Text → Text → Prop
  | marked {inside behind : Text} (hinside : ¬endMark <:+: inside ++ endMark.take 1) :
      CommentBody (inside ++ endMark) behind
  | unmarked {body : Text} (hbody : ¬endMark <:+: body) : CommentBody body []

theorem endMark_infix_cons_iff {c : CodePoint} {rest : Text} :
    endMark <:+: c :: rest ↔
      (c = '*' ∧ rest.head? = some (.char '/')) ∨ endMark <:+: rest := by
  have hprefix : endMark <+: c :: rest ↔ c = '*' ∧ rest.head? = some (.char '/') := by
    cases rest with
    | nil => simp [endMark]
    | cons d rest => simp [endMark, eq_comm]
  rw [List.infix_cons_iff, hprefix]

theorem head?_append_endMark (inside behind : Text) :
    (inside ++ endMark ++ behind).head? = (inside ++ endMark.take 1).head? := by
  cases inside <;> rfl

theorem commentBody_cons
    {c : CodePoint} {rest : Text} (h : ¬(c = '*' ∧ rest.head? = some (.char '/'))) :
    commentBody (c :: rest) = c :: commentBody rest := by
  rw [commentBody]
  rintro rest' rfl rfl
  exact h ⟨rfl, rfl⟩

theorem CommentBody.commentBody_eq {body behind : Text} (h : CommentBody body behind) :
    commentBody (body ++ behind) = body := by
  cases h with
  | @marked inside _ hinside =>
      induction inside with
      | nil => rfl
      | cons c inside ih =>
          rw [List.cons_append, endMark_infix_cons_iff, not_or,
            ← head?_append_endMark inside behind] at hinside
          rw [List.cons_append, List.cons_append, commentBody_cons hinside.1, ih hinside.2]
  | unmarked hbody =>
      rw [List.append_nil]
      induction body with
      | nil => rfl
      | cons c rest ih =>
          rw [endMark_infix_cons_iff, not_or] at hbody
          rw [commentBody_cons hbody.1, ih hbody.2]

theorem commentBody_spec (text : Text) :
    CommentBody (commentBody text) (text.drop (commentBody text).length) := by
  fun_induction commentBody text with
  | case1 => exact .unmarked (by decide)
  | case2 => exact @CommentBody.marked [] _ (by decide)
  | case3 c rest hmark ih =>
      have hfirst : ¬(c = '*' ∧ rest.head? = some (.char '/')) := by
        rintro ⟨rfl, hhead⟩
        obtain ⟨rest', rfl⟩ := List.head?_eq_some_iff.mp hhead
        exact hmark rest' rfl rfl
      have hdrop := commentBody_append_drop rest
      rw [List.length_cons, List.drop_succ_cons]
      generalize commentBody rest = body at hdrop ih
      generalize rest.drop body.length = behind at hdrop ih
      subst hdrop
      cases ih with
      | @marked inside _ hinside =>
          rw [head?_append_endMark] at hfirst
          refine @CommentBody.marked (c :: inside) _ ?_
          rw [List.cons_append, endMark_infix_cons_iff]
          exact not_or.mpr ⟨hfirst, hinside⟩
      | unmarked hbody =>
          rw [List.append_nil] at hfirst
          refine .unmarked ?_
          rw [endMark_infix_cons_iff]
          exact not_or.mpr ⟨hfirst, hbody⟩

theorem commentBody_eq_iff {body behind : Text} :
    commentBody (body ++ behind) = body ↔ CommentBody body behind := by
  constructor
  · intro h
    have hspec := commentBody_spec (body ++ behind)
    rwa [h, List.drop_left] at hspec
  · exact CommentBody.commentBody_eq

/-! ## Strings -/

/-- What a string has behind its opening quote: characters and pairs of a backslash with
what it takes, up to a quote or a newline or to the end of the text. -/
inductive StringBody (quote : CodePoint) : Text → Text → Prop
  | unclosed : StringBody quote [] []
  | dangling : StringBody quote ['\\'] []
  | closed {c : CodePoint} {behind : Text} (hc : c = quote ∨ c = '\n') :
      StringBody quote [c] behind
  | escaped {c : CodePoint} {body behind : Text} (hrest : StringBody quote body behind) :
      StringBody quote ('\\' :: c :: body) behind
  | ordinary {c : CodePoint} {body behind : Text} (hbackslash : c ≠ '\\')
      (hc : ¬(c = quote ∨ c = '\n')) (hrest : StringBody quote body behind) :
      StringBody quote (c :: body) behind

theorem StringBody.stringBody_eq
    {quote : CodePoint} {body behind : Text} (hquote : quote ≠ '\\')
    (h : StringBody quote body behind) :
    stringBody quote (body ++ behind) = body := by
  have hcons {c : CodePoint} {rest : Text} (hc : c ≠ '\\') : stringBody quote (c :: rest) =
      if c = quote ∨ c = '\n' then [c] else c :: stringBody quote rest := by
    rw [stringBody]
    · exact fun hbackslash => absurd hbackslash hc
    · exact fun _ _ hbackslash => absurd hbackslash hc
  induction h with
  | unclosed => rfl
  | dangling => rfl
  | @closed c behind hc =>
      have hbackslash : c ≠ '\\' := by
        rcases hc with rfl | rfl
        · exact hquote
        · decide
      rw [List.singleton_append, hcons hbackslash, if_pos hc]
  | escaped hrest ih => rw [List.cons_append, List.cons_append, stringBody, ih]
  | ordinary hbackslash hc hrest ih => rw [List.cons_append, hcons hbackslash, if_neg hc, ih]

theorem stringBody_spec (quote : CodePoint) (text : Text) :
    StringBody quote (stringBody quote text) (text.drop (stringBody quote text).length) := by
  fun_induction stringBody quote text with
  | case1 => exact .unclosed
  | case2 => exact .dangling
  | case3 c rest ih => exact .escaped ih
  | case4 c rest _ _ hc => exact .closed hc
  | case5 c rest hend hpair hc ih =>
      have hbackslash : c ≠ '\\' := by
        rintro rfl
        cases rest with
        | nil => exact hend rfl rfl
        | cons d rest => exact hpair d rest rfl rfl
      exact .ordinary hbackslash hc ih

theorem stringBody_eq_iff
    {quote : CodePoint} {body behind : Text} (hquote : quote ≠ '\\') :
    stringBody quote (body ++ behind) = body ↔ StringBody quote body behind := by
  constructor
  · intro h
    have hspec := stringBody_spec quote (body ++ behind)
    rwa [h, List.drop_left] at hspec
  · exact StringBody.stringBody_eq hquote

/-! ## Segmentations -/

/-- Which segment a text begins with behind the character `previous`, and what is left of
the text behind the segment. -/
inductive Begins (previous : Option CodePoint) : Text → Segment → Text → Prop
  | comment {body behind : Text} (hbody : CommentBody body behind) :
      Begins previous ('/' :: '*' :: (body ++ behind)) (.comment ('/' :: '*' :: body)) behind
  | string {quote : CodePoint} {body behind : Text} (hquote : quote = '\'' ∨ quote = '"')
      (hbody : StringBody quote body behind) :
      Begins previous (quote :: (body ++ behind)) (.string (quote :: body)) behind
  | reference {opening text behind : Text} {reading : Reading} (hopening : IsOpening opening)
      (hprevious : continuesName previous = false)
      (hread : Reading.read? text = some (reading, behind)) :
      Begins previous (opening ++ text) (.reference opening reading) behind
  | malformed {opening behind : Text} (hopening : IsOpening opening)
      (hprevious : continuesName previous = false) (hread : Reading.read? behind = none) :
      Begins previous (opening ++ behind) (.malformed opening) behind
  | plain {c : CodePoint} {behind : Text}
      (hcomment : ¬(c = '/' ∧ behind.head? = some (.char '*')))
      (hquote : ¬(c = '\'' ∨ c = '"'))
      (hopening : ∀ opening rest, IsOpening opening → c :: behind = opening ++ rest →
        continuesName previous = true) :
      Begins previous (c :: behind) (.plain c) behind

theorem begins_iff_starts
    {previous : Option CodePoint} {text behind : Text} {segment : Segment} :
    Begins previous text segment behind ↔ Starts previous text segment behind := by
  have hquotes {quote : CodePoint} (hquote : quote = '\'' ∨ quote = '"') : quote ≠ '\\' := by
    rcases hquote with rfl | rfl <;> decide
  constructor
  · intro h
    cases h with
    | comment hbody => exact .comment (commentBody_eq_iff.mpr hbody)
    | string hquote hbody => exact .string hquote ((stringBody_eq_iff (hquotes hquote)).mpr hbody)
    | reference hopening hprevious hread =>
        obtain ⟨hreading, rfl⟩ := Reading.read?_eq_some_iff.mp hread
        exact .reference hopening hprevious hreading
    | malformed hopening hprevious hread => exact .malformed hopening hprevious hread
    | @plain c behind hcomment hquote hopening =>
        refine .plain hcomment hquote ?_
        cases hopens : opening? (c :: behind) with
        | none => exact .inl rfl
        | some opening =>
            obtain ⟨hopening', rest, htext⟩ := opening?_eq_some_iff.mp hopens
            exact .inr (hopening opening rest hopening' htext)
  · intro h
    cases h with
    | comment hbody => exact .comment (commentBody_eq_iff.mp hbody)
    | string hquote hbody => exact .string hquote ((stringBody_eq_iff (hquotes hquote)).mp hbody)
    | reference hopening hprevious hreading =>
        exact .reference hopening hprevious (hreading.read?_append _)
    | malformed hopening hprevious hread => exact .malformed hopening hprevious hread
    | @plain c behind hcomment hquote hopening =>
        refine .plain hcomment hquote ?_
        intro opening rest hopening' htext
        rcases hopening with hnone | hprevious
        · rw [opening?_eq_some_iff.mpr ⟨hopening', rest, htext⟩] at hnone
          simp at hnone
        · exact hprevious

/-- The segments into which a text behind the character `previous` falls from left to right. -/
inductive Segmentation : Option CodePoint → Text → List Segment → Prop
  | nil {previous : Option CodePoint} : Segmentation previous [] []
  | cons {previous : Option CodePoint} {text behind : Text} {segment : Segment}
      {segments : List Segment} (hbegins : Begins previous text segment behind)
      (hrest : Segmentation segment.written.getLast? behind segments) :
      Segmentation previous text (segment :: segments)

/-- The segmentation by the rules is the one that is computed, and no other. -/
theorem segmentation_iff
    {previous : Option CodePoint} {text : Text} {segments : List Segment} :
    Segmentation previous text segments ↔ segments = split previous text := by
  constructor
  · intro h
    induction h with
    | nil => rw [split]
    | cons hbegins hrest ih => rw [(begins_iff_starts.mp hbegins).split_eq, ih]
  · intro h
    induction segments generalizing previous text with
    | nil =>
        cases text with
        | nil => exact .nil
        | cons c rest => simp [split] at h
    | cons segment segments ih =>
        obtain ⟨behind, hstarts, hrest⟩ := starts_of_split_eq_cons h.symm
        exact .cons (begins_iff_starts.mpr hstarts) (ih hrest.symm)

end Segment

end UrlRebase
