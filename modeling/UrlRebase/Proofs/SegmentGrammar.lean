import UrlRebase.Proofs.ReadingGrammar
import UrlRebase.Reference.Segment

/-!
# The grammar of segments

`Segment.Starts` states by one rule for each kind of segment which segment a text starts
with and what is left behind it.  `Segment.first` computes exactly this segment, so the
segmentation of a text is the only list of segments that follow one another by the rules.
-/

namespace UrlRebase

namespace Segment

/-- The letters `url` in any case and the parenthesis. -/
def IsOpening (opening : Text) : Prop :=
  ∃ u r l : CodePoint, opening = [u, r, l, .char '('] ∧
    (u = 'u' ∨ u = 'U') ∧ (r = 'r' ∨ r = 'R') ∧ (l = 'l' ∨ l = 'L')

theorem opening?_eq_some_iff {text opening : Text} :
    opening? text = some opening ↔ IsOpening opening ∧ ∃ rest, text = opening ++ rest := by
  constructor
  · intro h
    have hdrop := (opening?_append_drop h).1
    unfold opening? at h
    split at h
    · rename_i u r l rest
      split at h
      · rename_i hletters
        obtain rfl := Option.some.inj h
        exact ⟨⟨u, r, l, rfl, hletters⟩, rest, rfl⟩
      · simp at h
    · simp at h
  · rintro ⟨⟨u, r, l, rfl, hletters⟩, rest, rfl⟩
    simp [opening?, hletters]

theorem opening?_eq_of_take_eq {text text' : Text} (h : text.take 4 = text'.take 4) :
    opening? text = opening? text' := by
  have hiff (text opening : Text) :
      opening? text = some opening ↔ IsOpening opening ∧ text.take 4 = opening := by
    rw [opening?_eq_some_iff]
    refine and_congr_right ?_
    rintro ⟨u, r, l, rfl, -⟩
    constructor
    · rintro ⟨rest, rfl⟩
      rfl
    · intro htake
      exact ⟨text.drop 4, by rw [← htake, List.take_append_drop]⟩
  apply Option.ext
  intro opening
  rw [hiff, hiff, h]

theorem IsOpening.head_ne
    {opening : Text} (hopening : IsOpening opening) :
    ∃ c rest, opening = c :: rest ∧ c ≠ '/' ∧ c ≠ '\'' ∧ c ≠ '"' := by
  obtain ⟨u, r, l, rfl, rfl | rfl, -⟩ := hopening
  · exact ⟨'u', _, rfl, by decide⟩
  · exact ⟨'U', _, rfl, by decide⟩

/-- Which segment a text starts with behind the character `previous`, and what is left of
the text behind the segment. -/
inductive Starts (previous : Option CodePoint) : Text → Segment → Text → Prop
  | comment {body behind : Text}
      (hbody : commentBody (body ++ behind) = body) :
      Starts previous ('/' :: '*' :: (body ++ behind)) (.comment ('/' :: '*' :: body)) behind
  | string {quote : CodePoint} {body behind : Text}
      (hquote : quote = '\'' ∨ quote = '"')
      (hbody : stringBody quote (body ++ behind) = body) :
      Starts previous (quote :: (body ++ behind)) (.string (quote :: body)) behind
  | reference {opening : Text} {reading : Reading} {behind : Text}
      (hopening : IsOpening opening) (hprevious : continuesName previous = false)
      (hreading : reading.WellFormed) :
      Starts previous (opening ++ (reading.written ++ behind))
        (.reference opening reading) behind
  | malformed {opening behind : Text}
      (hopening : IsOpening opening) (hprevious : continuesName previous = false)
      (hread : Reading.read? behind = none) :
      Starts previous (opening ++ behind) (.malformed opening) behind
  | plain {c : CodePoint} {behind : Text}
      (hcomment : ¬(c = '/' ∧ behind.head? = some (.char '*')))
      (hquote : ¬(c = '\'' ∨ c = '"'))
      (hopening : opening? (c :: behind) = none ∨ continuesName previous = true) :
      Starts previous (c :: behind) (.plain c) behind

theorem starts_comment (previous : Option CodePoint) (rest : Text) :
    Starts previous ('/' :: '*' :: rest) (.comment ('/' :: '*' :: commentBody rest))
      (rest.drop (commentBody rest).length) := by
  have hbody := commentBody_append_drop rest
  nth_rewrite 1 [← hbody]
  exact .comment (by rw [hbody])

theorem starts_string
    (previous : Option CodePoint) {quote : CodePoint} (hquote : quote = '\'' ∨ quote = '"')
    (rest : Text) :
    Starts previous (quote :: rest) (.string (quote :: stringBody quote rest))
      (rest.drop (stringBody quote rest).length) := by
  have hbody := stringBody_append_drop quote rest
  nth_rewrite 1 [← hbody]
  exact .string hquote (by rw [hbody])

theorem first_starts (previous : Option CodePoint) (c : CodePoint) (rest : Text) :
    ∃ behind, Starts previous (c :: rest) (first previous c rest) behind := by
  unfold first
  split
  · rename_i hcomment
    obtain ⟨rfl, hstar⟩ := hcomment
    cases rest with
    | nil => simp at hstar
    | cons star rest =>
        obtain rfl : star = '*' := by simpa using hstar
        exact ⟨_, starts_comment previous rest⟩
  · rename_i hcomment
    split
    · rename_i hquote
      exact ⟨_, starts_string previous hquote rest⟩
    · rename_i hquote
      split
      · rename_i hnone
        exact ⟨rest, .plain hcomment hquote (.inl hnone)⟩
      · rename_i opening hopening
        split
        · rename_i hprevious
          exact ⟨rest, .plain hcomment hquote (.inr hprevious)⟩
        · rename_i hprevious
          have hfalse : continuesName previous = false := by simpa using hprevious
          obtain ⟨hopens, behind, htext⟩ := opening?_eq_some_iff.mp hopening
          rw [htext, List.drop_left]
          split
          · rename_i hread
            exact ⟨behind, .malformed hopens hfalse hread⟩
          · rename_i reading after hread
            obtain ⟨hreading, rfl⟩ := Reading.read?_eq_some_iff.mp hread
            exact ⟨after, .reference hopens hfalse hreading⟩

namespace Starts

variable {previous : Option CodePoint} {text behind : Text} {segment : Segment}

theorem text_eq (hstarts : Starts previous text segment behind) :
    text = segment.written ++ behind := by
  cases hstarts <;> simp [written]

theorem first_eq
    {c : CodePoint} {rest : Text} (hstarts : Starts previous (c :: rest) segment behind) :
    first previous c rest = segment := by
  generalize htext : c :: rest = text at hstarts
  cases hstarts with
  | comment hbody =>
      obtain ⟨rfl, rfl⟩ := List.cons.inj htext
      simp [first, hbody]
  | @string quote body behind hquote hbody =>
      obtain ⟨rfl, rfl⟩ := List.cons.inj htext
      have hcomment : ¬(c = '/' ∧ (body ++ behind).head? = some (.char '*')) := by
        rintro ⟨rfl, -⟩
        simp at hquote
      rw [first, if_neg hcomment, if_pos hquote, hbody]
  | @reference opening reading behind hopening hprevious hreading =>
      obtain ⟨d, more, rfl, hslash, hsingle, hdouble⟩ := hopening.head_ne
      rw [List.cons_append] at htext
      obtain ⟨rfl, rfl⟩ := List.cons.inj htext
      have hsome : opening? (c :: (more ++ (reading.written ++ behind))) = some (c :: more) :=
        opening?_eq_some_iff.mpr ⟨hopening, _, rfl⟩
      rw [first, if_neg (fun h => hslash h.1), if_neg (by simp [hsingle, hdouble]), hsome]
      simp only [hprevious, Bool.false_eq_true, if_false, ← List.cons_append,
        List.drop_left, hreading.read?_append]
  | @malformed opening behind hopening hprevious hread =>
      obtain ⟨d, more, rfl, hslash, hsingle, hdouble⟩ := hopening.head_ne
      rw [List.cons_append] at htext
      obtain ⟨rfl, rfl⟩ := List.cons.inj htext
      have hsome : opening? (c :: (more ++ behind)) = some (c :: more) :=
        opening?_eq_some_iff.mpr ⟨hopening, _, rfl⟩
      rw [first, if_neg (fun h => hslash h.1), if_neg (by simp [hsingle, hdouble]), hsome]
      simp only [hprevious, Bool.false_eq_true, if_false, ← List.cons_append,
        List.drop_left, hread]
  | plain hcomment hquote hopening =>
      obtain ⟨rfl, rfl⟩ := List.cons.inj htext
      rw [first, if_neg hcomment, if_neg hquote]
      rcases hopening with hnone | hprevious
      · rw [hnone]
      · cases opening? (c :: rest) <;> simp [hprevious]

theorem ne_nil (hstarts : Starts previous text segment behind) : text ≠ [] := by
  cases hstarts with
  | reference hopening =>
      obtain ⟨c, rest, rfl, -⟩ := hopening.head_ne
      simp
  | malformed hopening =>
      obtain ⟨c, rest, rfl, -⟩ := hopening.head_ne
      simp
  | _ => simp

theorem split_eq (hstarts : Starts previous text segment behind) :
    split previous text = segment :: split segment.written.getLast? behind := by
  obtain ⟨c, rest, rfl⟩ := List.exists_cons_of_ne_nil hstarts.ne_nil
  rw [split, hstarts.first_eq, hstarts.text_eq, List.drop_left]

end Starts

/-- A text with a first segment starts with it by one of the rules. -/
theorem starts_of_split_eq_cons
    {previous : Option CodePoint} {text : Text} {segment : Segment} {segments : List Segment}
    (hsplit : split previous text = segment :: segments) :
    ∃ behind, Starts previous text segment behind ∧
      split segment.written.getLast? behind = segments := by
  cases text with
  | nil => simp [split] at hsplit
  | cons c rest =>
      obtain ⟨behind, hstarts⟩ := first_starts previous c rest
      rw [hstarts.split_eq] at hsplit
      obtain ⟨rfl, rfl⟩ := List.cons.inj hsplit
      exact ⟨behind, hstarts, rfl⟩

end Segment

end UrlRebase
