import UrlRebase.Proofs.EscapedCharacters
import UrlRebase.Proofs.RewordedSegments
import UrlRebase.Proofs.TokenSpans

/-!
# Escaped quotes

A quote outside comments, strings and references opens a string, and a backslash before the
quote does not hinder it.  Which character the backslash takes with it has no influence on what
is cut before the backslash: a `url(` whose reading fails does so with any such character.
So a text with another character in place of the quote has the same tokens up to the
backslash, and it has the same tokens behind the string if they are read from there on.
-/

namespace UrlRebase

namespace Text

theorem exists_append_of_notMem
    {left right before behind : Text} {c : CodePoint}
    (htext : left ++ right = before ++ c :: behind) (hleft : c ∉ left) :
    ∃ middle, before = left ++ middle ∧ right = middle ++ c :: behind := by
  rcases List.append_eq_append_iff.mp htext with ⟨middle, hbefore, hright⟩ | ⟨middle, rfl, hrest⟩
  · exact ⟨middle, hbefore, hright⟩
  · cases middle with
    | nil => exact ⟨[], by simp, hrest.symm⟩
    | cons d middle =>
        obtain ⟨rfl, -⟩ := List.cons.inj hrest
        simp at hleft

theorem exists_cons_of_notMem
    {left right before behind : Text} {c : CodePoint}
    (htext : left ++ right = before ++ c :: behind) (hright : c ∉ right) :
    ∃ middle, left = before ++ c :: middle ∧ behind = middle ++ right := by
  rcases List.append_eq_append_iff.mp htext with ⟨middle, rfl, rfl⟩ | ⟨middle, rfl, hrest⟩
  · simp at hright
  · cases middle with
    | nil =>
        rw [List.nil_append] at hrest
        simp [← hrest] at hright
    | cons d middle =>
        obtain ⟨rfl, rfl⟩ := List.cons.inj hrest
        exact ⟨middle, rfl, rfl⟩

end Text

/-! ## Readings over an escape -/

namespace Escape

/-- Whether an escape of a character is no more than a backslash and the character. -/
def IsShort (c : CodePoint) : Prop :=
  isBreak c = false ∧ Text.isHex c = false

end Escape

namespace Reading

open Escape

theorem WellFormed.notMem_lead {reading : Reading} (hreading : reading.WellFormed) :
    CodePoint.char '\\' ∉ reading.leading ++ reading.quote.mark := by
  rw [List.mem_append, not_or]
  constructor
  · intro hmem
    exact absurd (hreading.leading _ hmem) (by decide)
  · cases reading.quote <;> decide

theorem WellFormed.notMem_closing {reading : Reading} (hreading : reading.WellFormed) :
    CodePoint.char '\\' ∉ reading.closing := by
  rw [closing, List.mem_append, List.mem_append, not_or, not_or]
  refine ⟨⟨?_, ?_⟩, by decide⟩
  · cases reading.quote <;> decide
  · intro hmem
    exact absurd (hreading.trailing _ hmem) (by decide)

namespace Spelled

variable {quote : Quote} {before rest behind : Text} {c d : CodePoint}

/-- A payload is spelled with another escape of one character in place of such an escape. -/
theorem replace
    (hraw : Spelled quote behind (before ++ .char '\\' :: c :: rest))
    (hbefore : ¬EscapesNext before) (hc : IsShort c) (hd : IsShort d) :
    Spelled quote behind (before ++ .char '\\' :: d :: rest) := by
  obtain ⟨hleft, hright⟩ := hraw.cut hbefore (by decide) (by decide)
  have hleft' : Spelled quote (.char '\\' :: d :: rest ++ behind) before := hleft.of_head? rfl
  refine hleft'.append ?_
  generalize hshape : c :: rest = inside at hright
  cases hright with
  | ordinary hord => exact absurd rfl (isOrdinary_iff.mp hord).1
  | @escape body tail hbody htail =>
      obtain ⟨e, more, rfl, -, hmore, -⟩ := body?_shape hbody
      rw [List.cons_append] at hshape
      obtain ⟨rfl, hrest⟩ := List.cons.inj hshape
      rw [hmore hc.2, List.nil_append] at hrest
      rw [hrest]
      exact .escape (body?_append_of_not_hex hd.1 hd.2 _) htail

end Spelled

/-- A reading that starts before an escape is one with another character escaped there, be it
that the escape is behind it or in its payload. -/
theorem WellFormed.exists_of_escape
    {reading : Reading} (hreading : reading.WellFormed) {before rest behind : Text}
    {c d : CodePoint} (htext : reading.written ++ behind = before ++ .char '\\' :: c :: rest)
    (hbefore : ¬EscapesNext before) (hc : IsShort c) (hd : IsShort d) :
    ∃ (reading' : Reading) (behind' : Text), reading'.WellFormed ∧
      before ++ .char '\\' :: d :: rest = reading'.written ++ behind' := by
  rcases List.append_eq_append_iff.mp htext with ⟨middle, rfl, -⟩ | ⟨middle, hwritten, hrest⟩
  · exact ⟨reading, middle ++ .char '\\' :: d :: rest, hreading, List.append_assoc ..⟩
  cases middle with
  | nil =>
      rw [List.append_nil] at hwritten
      exact ⟨reading, .char '\\' :: d :: rest, hreading, by rw [hwritten]⟩
  | cons e more =>
      obtain ⟨rfl, hmore⟩ := List.cons.inj hrest
      rw [written_eq, ← List.append_assoc] at hwritten
      obtain ⟨inside, rfl, hinside⟩ :=
        Text.exists_append_of_notMem hwritten hreading.notMem_lead
      obtain ⟨tail, hraw, rfl⟩ := Text.exists_cons_of_notMem hinside hreading.notMem_closing
      rw [escapesNext_append_iff (not_escapesNext_of_notMem hreading.notMem_lead)] at hbefore
      have hspelled := hreading.spelled
      rw [hraw] at hspelled
      cases tail with
      | nil =>
          -- The payload does not end in a backslash of its own.
          refine absurd ?_ hspelled.not_escapesNext
          rw [escapesNext_concat_iff]
          exact ⟨rfl, hbefore⟩
      | cons f tail =>
          obtain ⟨rfl, rfl⟩ := List.cons.inj hmore
          refine ⟨{ reading with raw := inside ++ .char '\\' :: d :: tail }, behind,
            ⟨hreading.leading, hreading.trailing, by simp, hspelled.replace hbefore hc hd⟩, ?_⟩
          simp [written_eq, closing]

theorem read?_eq_none_of_escape
    {before rest : Text} {c d : CodePoint}
    (hnone : read? (before ++ .char '\\' :: c :: rest) = none)
    (hbefore : ¬EscapesNext before) (hc : IsShort c) (hd : IsShort d) :
    read? (before ++ .char '\\' :: d :: rest) = none := by
  rw [Option.eq_none_iff_forall_ne_some]
  rintro ⟨reading, behind⟩ hread
  obtain ⟨hreading, htext⟩ := read?_eq_some_iff.mp hread
  obtain ⟨reading', behind', hreading', htext'⟩ :=
    hreading.exists_of_escape htext.symm hbefore hd hc
  rw [htext', hreading'.read?_append] at hnone
  simp at hnone

end Reading

/-! ## Segments before an escape -/

namespace Segment

open Escape

/-- Whether a segment of a text ends at an offset, or the first one starts there. -/
def IsBorder (text : Text) (offset : Nat) : Prop :=
  ∃ done later, split none text = done ++ later ∧ (done.flatMap written).length = offset

theorem exists_append_of_isBorder
    {text : Text} {done later : List Segment} {offset : Nat}
    (hsplit : split none text = done ++ later) (hborder : IsBorder text offset)
    (hle : (done.flatMap written).length ≤ offset) :
    ∃ middle behind, later = middle ++ behind ∧
      (done.flatMap written).length + (middle.flatMap written).length = offset := by
  obtain ⟨done', later', hsplit', rfl⟩ := hborder
  rw [hsplit] at hsplit'
  rcases List.append_eq_append_iff.mp hsplit' with
    ⟨middle, rfl, hlater⟩ | ⟨middle, rfl, -⟩
  · exact ⟨middle, later', hlater, by rw [List.flatMap_append, List.length_append]⟩
  · rw [List.flatMap_append, List.length_append] at hle ⊢
    exact ⟨[], later, rfl, by rw [List.flatMap_nil, List.length_nil]; omega⟩

theorem split_eq_of_append
    {previous : Option CodePoint} {before rest : Text} {done later : List Segment}
    (hsplit : split previous (before ++ rest) = done ++ later)
    (hdone : done.flatMap written = before) :
    later = split (before.getLast?.or previous) rest := by
  obtain ⟨rest', htext, hlater⟩ := (segmentation_iff.mpr hsplit.symm).exists_append
  rw [hdone] at htext hlater
  rw [List.append_cancel_left htext]
  exact segmentation_iff.mp hlater

theorem Starts.isOpening
    {previous : Option CodePoint} {text opening behind : Text}
    (hstarts : Starts previous text (.malformed opening) behind) :
    IsOpening opening := by
  cases hstarts with
  | malformed hopening => exact hopening

theorem IsOpening.notMem_backslash {opening : Text} (hopening : IsOpening opening) :
    CodePoint.char '\\' ∉ opening := by
  obtain ⟨u, r, l, rfl, hu, hr, hl⟩ := hopening
  rcases hu with rfl | rfl <;> rcases hr with rfl | rfl <;> rcases hl with rfl | rfl <;> decide

theorem IsOpening.not_escapesNext_append
    {opening : Text} (hopening : IsOpening opening) (before : Text) :
    ¬EscapesNext (before ++ opening) := by
  obtain ⟨u, r, l, rfl, -⟩ := hopening
  have hlast : before ++ [u, r, l, .char '('] = (before ++ [u, r, l]) ++ [.char '('] := by simp
  rw [hlast, escapesNext_concat_iff]
  simp

theorem opening?_append_backslash (before rest rest' : Text) :
    opening? (before ++ .char '\\' :: rest) = opening? (before ++ .char '\\' :: rest') := by
  have hsome {rest rest' opening : Text}
      (hopening : opening? (before ++ .char '\\' :: rest) = some opening) :
      opening? (before ++ .char '\\' :: rest') = some opening := by
    obtain ⟨hopens, behind, htext⟩ := opening?_eq_some_iff.mp hopening
    obtain ⟨middle, rfl, -⟩ := Text.exists_append_of_notMem htext.symm hopens.notMem_backslash
    exact opening?_eq_some_iff.mpr
      ⟨hopens, middle ++ .char '\\' :: rest', List.append_assoc ..⟩
  apply Option.ext
  intro opening
  exact ⟨hsome, hsome⟩

section Escape

variable {previous : Option CodePoint} {before rest : Text} {c d : CodePoint}

theorem Starts.escape
    {text behind : Text} {segment : Segment} (hstarts : Starts previous text segment behind)
    (hbehind : behind = before ++ .char '\\' :: c :: rest)
    (hmalformed : ∀ opening, segment = .malformed opening → ¬EscapesNext before)
    (hc : IsShort c) (hd : IsShort d) :
    Starts previous (segment.written ++ (before ++ .char '\\' :: d :: rest)) segment
      (before ++ .char '\\' :: d :: rest) := by
  have hnil : behind = [] → before ++ .char '\\' :: d :: rest = [] := by
    rintro rfl
    simp at hbehind
  cases hstarts with
  | comment hbody => exact .comment (commentBody_append hbody hnil)
  | string hquote hbody => exact .string hquote (stringBody_append hbody hnil)
  | reference hopening hprevious hreading =>
      rw [written, List.append_assoc]
      exact .reference hopening hprevious hreading
  | malformed hopening hprevious hread =>
      rw [hbehind] at hread
      exact .malformed hopening hprevious
        (Reading.read?_eq_none_of_escape hread (hmalformed _ rfl) hc hd)
  | @plain e _ hcomment hquote hopening =>
      rw [hbehind] at hcomment hopening
      rw [written, List.singleton_append]
      refine .plain ?_ hquote ?_
      · cases before <;> exact hcomment
      · rwa [← List.cons_append, opening?_append_backslash _ _ (c :: rest)]

/-- What a backslash takes with it has no influence on the segments before it. -/
theorem exists_split_of_escape
    {front : Text} {done later : List Segment}
    (hsplit : split previous (before ++ .char '\\' :: c :: rest) = done ++ later)
    (hdone : done.flatMap written = before) (hfront : ¬EscapesNext (front ++ before))
    (hc : IsShort c) (hd : IsShort d) :
    ∃ later', split previous (before ++ .char '\\' :: d :: rest) = done ++ later' := by
  -- The text before what is left goes into `front`, as a backslash at its end may be escaped.
  induction done generalizing previous before front with
  | nil => exact ⟨_, rfl⟩
  | cons segment done ih =>
      obtain ⟨behind, hstarts, hrest⟩ := starts_of_split_eq_cons hsplit
      have htext := hstarts.text_eq
      rw [← hdone, List.flatMap_cons, List.append_assoc] at htext
      have hbehind := (List.append_cancel_left htext).symm
      rw [← hdone, List.flatMap_cons, ← List.append_assoc] at hfront
      have hmalformed (opening : Text) (hsegment : segment = .malformed opening) :
          ¬EscapesNext (done.flatMap written) := by
        subst hsegment
        have hopening := hstarts.isOpening
        rwa [written, escapesNext_append_iff (hopening.not_escapesNext_append front)] at hfront
      have hstarts' := hstarts.escape hbehind hmalformed hc hd
      rw [hbehind] at hrest
      obtain ⟨later', hlater'⟩ := ih hrest rfl hfront
      refine ⟨later', ?_⟩
      rw [← hdone, List.flatMap_cons, List.append_assoc, hstarts'.split_eq, hlater',
        List.cons_append]

theorem split_escape (previous : Option CodePoint) (c : CodePoint) (rest : Text) :
    split previous (.char '\\' :: c :: rest) =
      .plain '\\' :: split (some (.char '\\')) (c :: rest) :=
  (starts_plain_of_ne (by decide) (by decide) (by decide) previous (c :: rest)).split_eq

/-- A text up to an escape falls into the same segments whichever character is escaped. -/
theorem split_of_escape
    {done later : List Segment}
    (hsplit : split none (before ++ .char '\\' :: c :: rest) = done ++ later)
    (hdone : done.flatMap written = before) (hbefore : ¬EscapesNext before)
    (hc : IsShort c) (hd : IsShort d) :
    split none (before ++ .char '\\' :: d :: rest) =
      done ++ .plain '\\' :: split (some (.char '\\')) (d :: rest) := by
  have hfront : ¬EscapesNext ([] ++ before) := hbefore
  obtain ⟨later', hlater'⟩ := exists_split_of_escape hsplit hdone hfront hc hd
  rw [hlater', split_eq_of_append hlater' hdone, split_escape]

/-- The segmentations of a text with an escaped quote and of the text with a full stop in its
place. -/
theorem exists_split_of_escaped_quote
    {quote : CodePoint} (hquote : quote = '\'' ∨ quote = '"')
    (hborder : IsBorder (before ++ .char '\\' :: quote :: rest) before.length)
    (hbefore : ¬EscapesNext before) :
    ∃ done body behind, rest = body ++ behind ∧ StringBody quote body behind ∧
      done.flatMap written = before ∧
      split none (before ++ .char '\\' :: quote :: rest) =
        done ++ .plain '\\' :: .string (quote :: body) :: split (quote :: body).getLast? behind ∧
      split none (before ++ .char '\\' :: .char '.' :: rest) =
        done ++ .plain '\\' :: .plain '.' :: split (some (.char '.')) rest := by
  have hshort : IsShort quote ∧ IsShort '.' := by
    unfold IsShort
    rcases hquote with rfl | rfl <;> decide
  obtain ⟨done, later, hsplit, hlength⟩ := hborder
  have hdone : done.flatMap written = before := by
    have hwhole := flatMap_written none (before ++ .char '\\' :: quote :: rest)
    rw [hsplit, List.flatMap_append] at hwhole
    exact (List.append_inj hwhole hlength).1
  have hquoted := split_of_escape hsplit hdone hbefore hshort.1 hshort.1
  have hstopped := split_of_escape hsplit hdone hbefore hshort.1 hshort.2
  have hbody := stringBody_append_drop quote rest
  have hstring := starts_string (some (.char '\\')) hquote rest
  have hstop : Starts (some (.char '\\')) (.char '.' :: rest) (.plain '.') rest :=
    starts_plain_of_ne (by decide) (by decide) (by decide) _ _
  refine ⟨done, stringBody quote rest, _, hbody.symm, stringBody_spec quote rest, hdone, ?_, ?_⟩
  · rw [hquoted, hstring.split_eq]
    rfl
  · rw [hstopped, hstop.split_eq]
    rfl

/-- If the text with the full stop is cut where the string ended, it goes on as the other does
behind the string. -/
theorem exists_split_of_isBorder
    {text body behind : Text} {done : List Segment} {quote : CodePoint}
    (hsplit : split none text =
      done ++ .plain '\\' :: .plain '.' :: split (some (.char '.')) (body ++ behind))
    (hbody : StringBody quote body behind)
    (hborder : IsBorder text ((done.flatMap written).length + 2 + body.length)) :
    ∃ middle, middle.flatMap written = body ∧
      split (some (.char '.')) (body ++ behind) =
        middle ++ split (quote :: body).getLast? behind := by
  have hcut : split none text =
      (done ++ [.plain '\\', .plain '.']) ++ split (some (.char '.')) (body ++ behind) := by
    rw [hsplit, List.append_assoc]
    rfl
  have hlength : ((done ++ [plain '\\', plain '.']).flatMap written).length =
      (done.flatMap written).length + 2 := by
    rw [List.flatMap_append, List.length_append]
    rfl
  obtain ⟨middle, later, hmiddle, hsum⟩ := exists_append_of_isBorder hcut hborder (by omega)
  have hwritten : middle.flatMap written = body := by
    have hwhole := flatMap_written (some (.char '.')) (body ++ behind)
    rw [hmiddle, List.flatMap_append] at hwhole
    exact (List.append_inj hwhole (by omega)).1
  refine ⟨middle, hwritten, ?_⟩
  rw [hmiddle, split_eq_of_append hmiddle hwritten]
  -- Only an empty string has another last character, and nothing is behind it.
  cases hbody with
  | unclosed => rw [split, split]
  | _ => simp [List.getLast?_cons]

end Escape

end Segment

/-! ## Tokens before and behind a border -/

namespace Token

open Escape

theorem scan_eq_append
    {text : Text} {done later : List Segment} (hsplit : Segment.split none text = done ++ later) :
    scan text = ofSegments 0 0 Place.start done ++
      ofSegments (ofSegments 0 0 Place.start done).length (done.flatMap Segment.written).length
        (Place.start.after (done.flatMap Segment.written)) later := by
  rw [scan, hsplit, ofSegments_append, Nat.zero_add, Nat.zero_add]

section Border

variable {before behind : List Token} {start finish : Nat}

theorem filter_lt_append
    (hbefore : ∀ token ∈ before, token.start < start)
    (hbehind : ∀ token ∈ behind, finish ≤ token.start) (hle : start ≤ finish) :
    (before ++ behind).filter (·.start < start) = before := by
  rw [List.filter_append, List.filter_eq_self.mpr, List.filter_eq_nil_iff.mpr, List.append_nil]
  · intro token hmem
    have hstart := hbehind token hmem
    simp only [decide_eq_true_eq]
    omega
  · intro token hmem
    simpa using hbefore token hmem

theorem filter_le_append
    (hbefore : ∀ token ∈ before, token.start < start)
    (hbehind : ∀ token ∈ behind, finish ≤ token.start) (hle : start ≤ finish) :
    (before ++ behind).filter (finish ≤ ·.start) = behind := by
  rw [List.filter_append, List.filter_eq_nil_iff.mpr, List.filter_eq_self.mpr, List.nil_append]
  · intro token hmem
    simpa using hbehind token hmem
  · intro token hmem
    have hstart := hbefore token hmem
    simp only [decide_eq_true_eq]
    omega

end Border

section String

variable {index start : Nat} {place : Place} {quote : CodePoint} {body : Text}

theorem finish_le_of_mem_ofSegments
    {later : List Segment} {token : Token}
    (hmem : token ∈ ofSegments index start place
      (.plain '\\' :: .string (quote :: body) :: later)) :
    start + 2 + body.length ≤ token.start := by
  simp only [ofSegments] at hmem
  have hle := (start_of_mem_ofSegments hmem).1
  simp only [Segment.written, List.length_cons, List.length_nil] at hle
  omega

/-- Without tokens in what was the string, the tokens behind it are where they were. -/
theorem ofSegments_resumed
    {middle later : List Segment} (hquote : quote ≠ '\n')
    (hmiddle : middle.flatMap Segment.written = body)
    (hnone : ∀ token ∈ ofSegments index start place
      (.plain '\\' :: .plain '.' :: (middle ++ later)), start + 2 + body.length ≤ token.start) :
    ofSegments index start place (.plain '\\' :: .plain '.' :: (middle ++ later)) =
      ofSegments index start place (.plain '\\' :: .string (quote :: body) :: later) := by
  have hplace : place.after (.char '\\' :: .char '.' :: body) =
      place.after (.char '\\' :: quote :: body) := by
    simp [Place.after_cons, Place.step, hquote]
  have hstopped := @ofSegments_append index start place
    (.plain '\\' :: .plain '.' :: middle) later
  have hquoted := @ofSegments_append index start place
    [.plain '\\', .string (quote :: body)] later
  have hwritten : (Segment.plain '\\' :: .plain '.' :: middle).flatMap Segment.written =
      .char '\\' :: .char '.' :: body := by
    rw [← hmiddle]
    rfl
  have hwritten' : [Segment.plain '\\', .string (quote :: body)].flatMap Segment.written =
      .char '\\' :: quote :: body := by
    simp [Segment.written]
  have hinside : ofSegments index start place (.plain '\\' :: .plain '.' :: middle) = [] := by
    rw [List.eq_nil_iff_forall_not_mem]
    intro token hmem
    have hlt := (start_of_mem_ofSegments hmem).2
    rw [hwritten, List.length_cons, List.length_cons] at hlt
    have hle := hnone token (by
      rw [← List.cons_append, ← List.cons_append, hstopped]
      exact List.mem_append_left _ hmem)
    omega
  rw [hinside, hwritten, hplace] at hstopped
  rw [hwritten'] at hquoted
  exact hstopped.trans hquoted.symm

end String

/-- A quote opens a string although a backslash is before it.  With a full stop in its place
the tokens before the backslash are the same, and all are if those from the backslash on are the
ones behind the string. -/
theorem scan_of_escaped_quote
    {text text' before rest : Text} {quote : CodePoint}
    (htext : text = before ++ .char '\\' :: quote :: rest)
    (htext' : text' = before ++ .char '\\' :: .char '.' :: rest)
    (hquote : quote = '\'' ∨ quote = '"')
    (hborder : Segment.IsBorder text before.length) (hbefore : ¬EscapesNext before) :
    ∃ (body behind : Text) (finish : Nat),
      rest = body ++ behind ∧ finish = before.length + 2 + body.length ∧
      Segment.StringBody quote body behind ∧
      (∃ done later, Segment.split none text = done ++ .string (quote :: body) :: later ∧
        done.flatMap Segment.written = before ++ [.char '\\']) ∧
      (scan text').filter (·.start < before.length) =
        (scan text).filter (·.start < before.length) ∧
      (scan text' = scan text ↔
        (scan text').filter (before.length ≤ ·.start) =
          (scan text).filter (finish ≤ ·.start)) ∧
      (Segment.IsBorder text' finish →
        (scan text' = scan text ↔
          ∀ token ∈ scan text', token.start < before.length ∨ finish ≤ token.start)) := by
  subst htext htext'
  obtain ⟨done, body, behind, hrest, hbody, hdone, hsplit, hsplit'⟩ :=
    Segment.exists_split_of_escaped_quote hquote hborder hbefore
  have hscan := scan_eq_append hsplit
  have hscan' := scan_eq_append hsplit'
  rw [hdone] at hscan hscan'
  have hstart : ∀ token ∈ ofSegments 0 0 Place.start done, token.start < before.length := by
    intro token hmem
    simpa [hdone] using (start_of_mem_ofSegments hmem).2
  have hbreak : quote ≠ '\n' := by
    rcases hquote with rfl | rfl <;> decide
  generalize ofSegments 0 0 Place.start done = tokens at hscan hscan' hstart
  have hquoted : ∀ token ∈ ofSegments tokens.length before.length (Place.start.after before)
      (.plain '\\' :: .string (quote :: body) :: Segment.split (quote :: body).getLast? behind),
      before.length + 2 + body.length ≤ token.start := fun _ => finish_le_of_mem_ofSegments
  have hstopped : ∀ token ∈ ofSegments tokens.length before.length (Place.start.after before)
      (.plain '\\' :: .plain '.' :: Segment.split (some (.char '.')) rest),
      before.length ≤ token.start := fun _ hmem => (start_of_mem_ofSegments hmem).1
  refine ⟨body, behind, _, hrest, rfl, hbody, ?_, ?_, ?_, ?_⟩
  · refine ⟨done ++ [.plain '\\'], Segment.split (quote :: body).getLast? behind, ?_, ?_⟩
    · rw [hsplit, List.append_assoc]
      rfl
    · rw [List.flatMap_append, hdone]
      rfl
  · rw [hscan, hscan', filter_lt_append hstart hstopped le_rfl,
      filter_lt_append hstart hquoted (by omega)]
  · rw [hscan, hscan', filter_le_append hstart hstopped le_rfl,
      filter_le_append hstart hquoted (by omega), List.append_cancel_left_eq]
  · intro hborder'
    constructor
    · intro heq token hmem
      rw [heq, hscan, List.mem_append] at hmem
      exact hmem.imp (hstart token) (hquoted token)
    · intro hnone
      subst hrest hdone
      obtain ⟨middle, hmiddle, hresumed⟩ :=
        Segment.exists_split_of_isBorder hsplit' hbody hborder'
      rw [hscan'] at hnone
      rw [hscan, hscan']
      rw [hresumed] at hnone hstopped ⊢
      rw [ofSegments_resumed hbreak hmiddle]
      intro token hmem
      have hstart := hstopped token hmem
      have hside := hnone token (List.mem_append_right _ hmem)
      omega

theorem scan_of_escaped_quote_of_newline :
    Segment.IsBorder "url( \\\"a\nurl(b)".text "url( ".text.length ∧
      ¬EscapesNext "url( ".text ∧
      (scan "url( \\\"a\nurl(b)".text).map (·.start) = [9] ∧
      scan "url( \\.a\nurl(b)".text = scan "url( \\\"a\nurl(b)".text := by
  have hsplit : Segment.split none "url( \\\"a\nurl(b)".text =
      [.malformed "url(".text, .plain ' ', .plain '\\', .string "\"a\n".text,
        .reference "url(".text ⟨[], .none, "b".text, []⟩] := by
    decide +kernel
  have hborder : Segment.IsBorder "url( \\\"a\nurl(b)".text "url( ".text.length :=
    ⟨[.malformed "url(".text, .plain ' '], _, hsplit, rfl⟩
  have hbefore : ¬EscapesNext "url( ".text := not_escapesNext_of_notMem (by decide)
  obtain ⟨body, behind, finish, hrest, rfl, hbody, -, -, hsame, -⟩ :=
    @scan_of_escaped_quote _ "url( \\.a\nurl(b)".text _ "a\nurl(b)".text _
      rfl rfl (.inr rfl) hborder hbefore
  have hbodyEq := hbody.stringBody_eq (by decide)
  rw [← hrest] at hbodyEq
  obtain rfl : "a\n".text = body := hbodyEq
  exact ⟨hborder, hbefore, by decide +kernel, hsame.mpr (by decide +kernel)⟩

/-- The string that an escaped quote opens hides a reference. -/
theorem exists_hidden_reference :
    Segment.IsBorder "\\\" url(a.png)".text 0 ∧ ¬EscapesNext [] ∧
      scan "\\\" url(a.png)".text = [] ∧
      scan "\\. url(a.png)".text =
        [⟨0, 3, ⟨0, 3⟩, ⟨[], .none, "a.png".text, []⟩⟩] :=
  ⟨⟨[], _, rfl, rfl⟩, not_escapesNext_nil, by decide +kernel, by decide +kernel⟩

end Token

end UrlRebase
