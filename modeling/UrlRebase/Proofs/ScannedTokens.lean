import UrlRebase.Proofs.SegmentGrammar
import UrlRebase.Reference.Token

/-!
# Tokens of a scanned text

The tokens of a text stand one behind the other: each starts at or behind the place where
the one before it ends.  A token never leaves its line, and its payload lies strictly
between its first column and its last one.
-/

namespace UrlRebase

theorem Escape.not_isBreak
    {c : CodePoint} (hc : Text.isHex c = true ∨ isBlank c = true) :
    isBreak c = false := by
  by_contra hbreak
  have hcases : c = '\r' ∨ c = '\n' := by
    simpa only [isBreak, Bool.not_eq_false, Bool.or_eq_true, decide_eq_true_eq] using hbreak
  rcases hcases with rfl | rfl
  · exact absurd hc (by decide)
  · exact absurd hc (by decide)

theorem Reading.Spelled.not_isBreak
    {quote : Quote} {raw behind : Text} (hraw : Spelled quote behind raw) :
    ∀ c ∈ raw, isBreak c = false := by
  induction hraw with
  | nil => simp
  | ordinary hc hrest ih =>
      intro d hd
      rcases List.mem_cons.mp hd with rfl | hd
      · exact (isOrdinary_iff.mp hc).2.1
      · exact ih d hd
  | escape hbody hrest ih =>
      obtain ⟨c, tail, rfl, hc, -, htail⟩ := Escape.body?_shape hbody
      intro d hd
      rcases List.mem_cons.mp hd with rfl | hd
      · rfl
      rcases List.mem_append.mp hd with hd | hd
      · rcases List.mem_cons.mp hd with rfl | hd
        · exact hc
        · exact Escape.not_isBreak (htail d hd)
      · exact ih d hd

theorem Reading.WellFormed.not_isBreak_written
    {reading : Reading} (hreading : reading.WellFormed) :
    ∀ c ∈ reading.written, isBreak c = false := by
  have hblank {c : CodePoint} (hc : isBlank c = true) : isBreak c = false :=
    Escape.not_isBreak (.inr hc)
  have hmark : ∀ c ∈ reading.quote.mark, isBreak c = false := by
    cases reading.quote <;> simp [Quote.mark, isBreak]
  intro c hc
  simp only [Reading.written, List.mem_append] at hc
  rcases hc with ((((hc | hc) | hc) | hc) | hc) | hc
  · exact hblank (hreading.leading c hc)
  · exact hmark c hc
  · exact hreading.spelled.not_isBreak c hc
  · exact hmark c hc
  · exact hblank (hreading.trailing c hc)
  · obtain rfl : c = ')' := by simpa [String.text] using hc
    rfl

theorem Segment.IsOpening.not_isBreak
    {opening : Text} (hopening : IsOpening opening) :
    ∀ c ∈ opening, isBreak c = false := by
  obtain ⟨u, r, l, rfl, hu, hr, hl⟩ := hopening
  rcases hu with rfl | rfl <;> rcases hr with rfl | rfl <;> rcases hl with rfl | rfl <;>
    decide

theorem Segment.IsOpening.length_eq
    {opening : Text} (hopening : IsOpening opening) :
    opening.length = Token.openingLength := by
  obtain ⟨u, r, l, rfl, -⟩ := hopening
  rfl

namespace Place

/-- Whether a place is at or before another, by lines and then by columns. -/
def Reaches (place place' : Place) : Prop :=
  place.line < place'.line ∨ (place.line = place'.line ∧ place.column ≤ place'.column)

theorem Reaches.refl (place : Place) : place.Reaches place :=
  .inr ⟨rfl, le_rfl⟩

theorem Reaches.trans
    {first second third : Place} (h : first.Reaches second) (h' : second.Reaches third) :
    first.Reaches third := by
  unfold Reaches at *
  omega

theorem reaches_step (place : Place) (c : CodePoint) : place.Reaches (place.step c) := by
  unfold Reaches step
  split <;> simp

theorem reaches_after (place : Place) (text : Text) : place.Reaches (place.after text) := by
  induction text generalizing place with
  | nil => exact .refl place
  | cons c text ih => exact (reaches_step place c).trans (ih (place.step c))

theorem after_of_notMem
    {text : Text} (htext : CodePoint.char '\n' ∉ text) (place : Place) :
    place.after text = ⟨place.line, place.column + text.length⟩ := by
  induction text generalizing place with
  | nil => rfl
  | cons c text ih =>
      have hc : c ≠ '\n' := fun h => htext (h ▸ List.mem_cons_self)
      rw [after_cons, step, if_neg hc, ih fun h => htext (List.mem_cons_of_mem c h)]
      simp only [List.length_cons]
      congr 1
      omega

theorem after_of_not_isBreak
    {text : Text} (htext : ∀ c ∈ text, isBreak c = false) (place : Place) :
    place.after text = ⟨place.line, place.column + text.length⟩ :=
  after_of_notMem (fun h => absurd (htext _ h) (by decide)) place

end Place

namespace Segment

/-- Whether a segment that is a reference is one that a text can have. -/
def IsCut (segment : Segment) : Prop :=
  ∀ opening reading, segment = .reference opening reading →
    IsOpening opening ∧ reading.WellFormed

theorem isCut_of_mem_split
    {previous : Option CodePoint} {text : Text} {segment : Segment}
    (hmem : segment ∈ split previous text) :
    segment.IsCut := by
  generalize hsegments : split previous text = segments at hmem
  induction segments generalizing previous text with
  | nil => simp at hmem
  | cons first rest ih =>
      obtain ⟨behind, hstarts, hrest⟩ := starts_of_split_eq_cons hsegments
      rcases List.mem_cons.mp hmem with rfl | hmem
      · rintro opening reading rfl
        cases hstarts with
        | reference hopening _ hreading => exact ⟨hopening, hreading⟩
      · exact ih hrest hmem

/-- A reference takes its place to the column behind it. -/
theorem IsCut.after_reference
    {opening : Text} {reading : Reading} (hcut : (reference opening reading).IsCut)
    (place : Place) :
    place.after (reference opening reading).written =
      ⟨place.line, place.column + (Token.openingLength + reading.written.length)⟩ := by
  obtain ⟨hopening, hreading⟩ := hcut opening reading rfl
  have hbreak : ∀ c ∈ opening ++ reading.written, isBreak c = false := by
    intro c hc
    rcases List.mem_append.mp hc with hc | hc
    · exact hopening.not_isBreak c hc
    · exact hreading.not_isBreak_written c hc
  rw [written, Place.after_of_not_isBreak hbreak, List.length_append, hopening.length_eq]

end Segment

namespace Token

/-- The place behind the closing parenthesis. -/
def finishPlace (token : Token) : Place :=
  ⟨token.place.line, token.finishColumn⟩

/-- Whether a token ends at or before the start of another. -/
def Before (token token' : Token) : Prop :=
  token.finishPlace.Reaches token'.place

theorem column_lt_payloadColumn (token : Token) :
    token.place.column < token.payloadColumn := by
  simp only [payloadColumn, payloadDistance, openingLength]
  omega

theorem payloadFinishColumn_lt_finishColumn (token : Token) :
    token.payloadFinishColumn < token.finishColumn := by
  simp only [payloadFinishColumn, payloadColumn, payloadDistance, finishColumn, length, raw,
    Reading.lead, Reading.written_eq, Reading.closing, List.length_append]
  simp [String.text, Text.ofChars]
  omega

theorem column_lt_finishColumn (token : Token) : token.place.column < token.finishColumn := by
  have hpayload := token.column_lt_payloadColumn
  have hfinish := token.payloadFinishColumn_lt_finishColumn
  simp only [payloadFinishColumn] at hfinish
  omega

theorem payloadColumn_lt_payloadFinishColumn
    {token : Token} (hraw : token.raw ≠ []) :
    token.payloadColumn < token.payloadFinishColumn := by
  have hpos := List.length_pos_iff.mpr hraw
  simp only [payloadFinishColumn]
  omega

section OfSegments

variable {index start : Nat} {place : Place} {segments : List Segment} {token : Token}

/-- A token is a reference, where the segments before it lead. -/
theorem exists_reference_of_mem_ofSegments
    (hmem : token ∈ ofSegments index start place segments) :
    ∃ (done : List Segment) (opening : Text) (later : List Segment),
      segments = done ++ .reference opening token.reading :: later ∧
      token.start = start + (done.flatMap Segment.written).length ∧
      token.place = place.after (done.flatMap Segment.written) := by
  induction segments generalizing index start place with
  | nil => simp [ofSegments] at hmem
  | cons segment rest ih =>
      have hlater {index : Nat}
          (hmem : token ∈ ofSegments index (start + segment.written.length)
            (place.after segment.written) rest) :
          ∃ (done : List Segment) (opening : Text) (later : List Segment),
            segment :: rest = done ++ .reference opening token.reading :: later ∧
            token.start = start + (done.flatMap Segment.written).length ∧
            token.place = place.after (done.flatMap Segment.written) := by
        obtain ⟨done, opening, later, rfl, hstart, hplace⟩ := ih hmem
        refine ⟨segment :: done, opening, later, rfl, ?_, ?_⟩
        · rw [hstart, List.flatMap_cons, List.length_append, Nat.add_assoc]
        · rw [hplace, List.flatMap_cons, Place.after_append]
      cases segment with
      | reference opening reading =>
          rcases List.mem_cons.mp hmem with rfl | hmem
          · exact ⟨[], opening, rest, rfl, rfl, rfl⟩
          · exact hlater hmem
      | _ => exact hlater hmem

theorem mem_ofSegments
    (hcut : ∀ segment ∈ segments, segment.IsCut)
    (hmem : token ∈ ofSegments index start place segments) :
    place.Reaches token.place ∧ token.reading.WellFormed := by
  obtain ⟨done, opening, later, rfl, -, hplace⟩ := exists_reference_of_mem_ofSegments hmem
  rw [hplace]
  exact ⟨place.reaches_after _, (hcut _ (by simp) opening token.reading rfl).2⟩

/-- Between a token and one behind it there is a text, maybe empty. -/
theorem pairwise_ofSegments (hcut : ∀ segment ∈ segments, segment.IsCut) :
    (ofSegments index start place segments).Pairwise fun token token' => ∃ gap : Text,
      token'.start = token.finish + gap.length ∧ token'.place = token.finishPlace.after gap := by
  induction segments generalizing index start place with
  | nil => exact .nil
  | cons segment rest ih =>
      have hrest : ∀ segment ∈ rest, segment.IsCut := fun segment hsegment =>
        hcut segment (List.mem_cons_of_mem _ hsegment)
      cases segment with
      | reference opening reading =>
          have hreference := hcut _ List.mem_cons_self
          refine List.pairwise_cons.mpr ⟨?_, ih hrest⟩
          intro token hmem
          obtain ⟨done, -, -, -, hstart, hplace⟩ := exists_reference_of_mem_ofSegments hmem
          refine ⟨done.flatMap Segment.written, ?_, ?_⟩
          · rw [hstart, Segment.written, List.length_append,
              (hreference opening reading rfl).1.length_eq]
            rfl
          · rw [hplace, hreference.after_reference]
            rfl
      | _ => exact ih hrest

end OfSegments

theorem pairwise_scan (text : Text) : (scan text).Pairwise Before := by
  refine (pairwise_ofSegments fun _ hsegment => Segment.isCut_of_mem_split hsegment).imp ?_
  rintro token token' ⟨gap, -, hplace⟩
  rw [Before, hplace]
  exact token.finishPlace.reaches_after gap

theorem wellFormed_of_mem_scan
    {text : Text} {token : Token} (hmem : token ∈ scan text) :
    token.reading.WellFormed :=
  (mem_ofSegments (fun _ hsegment => Segment.isCut_of_mem_split hsegment) hmem).2

end Token

end UrlRebase
