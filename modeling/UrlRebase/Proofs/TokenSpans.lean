import UrlRebase.Proofs.ScannedTokens
import UrlRebase.Proofs.SegmentedText

/-!
# The spans of tokens

The tokens of a text are the references of its segmentation, each at the offset and the
place to which the segments before it lead.  So the offsets of a token are those of its parts
in the text, and an opening with a reading behind it that is no token starts inside a
segment: not inside a single character, nor inside an opening, hence inside a comment, a
string or another token.
-/

namespace UrlRebase

namespace Text

theorem placeOf_of_le {text : Text} {offset : Nat} (h : offset ≤ text.length) :
    text.placeOf offset = Place.start.after (text.take offset) := by
  unfold placeOf
  rw [Nat.sub_eq_zero_of_le h]
  rfl

/-- The part of a text between two offsets. -/
def between (text : Text) (start finish : Nat) : Text :=
  (text.take finish).drop start

theorem between_eq
    {text before middle behind : Text} {start finish : Nat}
    (htext : text = before ++ (middle ++ behind)) (hstart : start = before.length)
    (hfinish : finish = before.length + middle.length) :
    text.between start finish = middle := by
  rw [between, htext, hstart, hfinish, List.take_length_add_append, List.drop_left,
    List.take_left]

theorem between_add (text : Text) (start length : Nat) :
    text.between start (start + length) = (text.drop start).take length := by
  rw [between, List.drop_take, Nat.add_sub_cancel_left]

end Text

namespace Place

theorem line_after (place : Place) (text : Text) :
    (place.after text).line = place.line + text.count (.char '\n') := by
  induction text generalizing place with
  | nil => rfl
  | cons c rest ih =>
      rw [after_cons, ih, List.count_cons, step]
      by_cases hc : c = '\n'
      · simp [hc]
        omega
      · simp [hc]

/-- The column of a place behind a text is the length of the last line of the text. -/
theorem exists_line_of_after_start (text : Text) :
    ∃ above line : Text, text = above ++ line ∧
      (above = [] ∨ above.getLast? = some (.char '\n')) ∧ CodePoint.char '\n' ∉ line ∧
      (start.after text).column = line.length := by
  induction text using List.reverseRecOn with
  | nil => exact ⟨[], [], rfl, .inl rfl, by simp, rfl⟩
  | append_singleton text c ih =>
      obtain ⟨above, line, htext, habove, hline, hcolumn⟩ := ih
      rw [after_append, after_cons, after_nil]
      by_cases hc : c = '\n'
      · refine ⟨text ++ [c], [], by simp, .inr (by simp [hc]), by simp, ?_⟩
        rw [step, if_pos hc]
        rfl
      · refine ⟨above, line ++ [c], by rw [htext, List.append_assoc], habove, ?_, ?_⟩
        · simp [hline, Ne.symm hc]
        · rw [step, if_neg hc, hcolumn]
          simp

end Place

namespace Segment

/-! ## Segments and offsets -/

theorem Begins.text_eq
    {previous : Option CodePoint} {text behind : Text} {segment : Segment}
    (h : Begins previous text segment behind) :
    text = segment.written ++ behind :=
  (begins_iff_starts.mp h).text_eq

theorem Begins.written_ne_nil
    {previous : Option CodePoint} {text behind : Text} {segment : Segment}
    (h : Begins previous text segment behind) :
    segment.written ≠ [] := by
  cases h with
  | reference hopening =>
      obtain ⟨c, rest, rfl, -⟩ := hopening.head_ne
      simp [written]
  | malformed hopening =>
      obtain ⟨c, rest, rfl, -⟩ := hopening.head_ne
      simp [written]
  | _ => simp [written]

theorem Begins.unique
    {previous : Option CodePoint} {text behind behind' : Text} {segment segment' : Segment}
    (h : Begins previous text segment behind) (h' : Begins previous text segment' behind') :
    segment = segment' := by
  have hsplit := (begins_iff_starts.mp h).split_eq
  rw [(begins_iff_starts.mp h').split_eq] at hsplit
  exact (List.cons.inj hsplit).1.symm

/-- No opening starts inside another. -/
theorem IsOpening.not_isOpening_drop
    {opening : Text} (hopening : IsOpening opening) {distance : Nat} (hpos : 0 < distance)
    (hlt : distance < Token.openingLength) (rest : Text) :
    ¬IsOpening (((opening ++ rest).drop distance).take Token.openingLength) := by
  obtain ⟨u, r, l, rfl, -, hr, hl⟩ := hopening
  rintro ⟨u', r', l', htake, hu', -⟩
  have hhead := congrArg List.head? htake
  have hcases : distance = 1 ∨ distance = 2 ∨ distance = 3 := by
    unfold Token.openingLength at hlt
    omega
  rcases hcases with rfl | rfl | rfl
  · obtain rfl : r = u' := by simpa [Token.openingLength] using hhead
    rcases hr with rfl | rfl <;> simp at hu'
  · obtain rfl : l = u' := by simpa [Token.openingLength] using hhead
    rcases hl with rfl | rfl <;> simp at hu'
  · obtain rfl : CodePoint.char '(' = u' := by simpa [Token.openingLength] using hhead
    simp at hu'

/-- Behind some of its segments a text falls into the others. -/
theorem Segmentation.exists_append
    {previous : Option CodePoint} {text : Text} {done later : List Segment}
    (h : Segmentation previous text (done ++ later)) :
    ∃ rest, text = done.flatMap written ++ rest ∧
      Segmentation ((done.flatMap written).getLast?.or previous) rest later := by
  induction done generalizing previous text with
  | nil => exact ⟨text, rfl, h⟩
  | cons first done ih =>
      cases h with
      | @cons _ _ middle _ _ hbegins hrest =>
          obtain ⟨rest, hmiddle, hlater⟩ := ih hrest
          refine ⟨rest, ?_, ?_⟩
          · rw [hbegins.text_eq, hmiddle, List.flatMap_cons, List.append_assoc]
          · have hlast : first.written.getLast?.or previous = first.written.getLast? := by
              rw [List.getLast?_eq_some_getLast hbegins.written_ne_nil, Option.some_or]
            rwa [List.flatMap_cons, List.getLast?_append, Option.or_assoc, hlast]

/-- Each segment is the one that the text behind the segments before it begins with. -/
theorem Segmentation.exists_begins
    {previous : Option CodePoint} {text : Text} {done later : List Segment} {segment : Segment}
    (h : Segmentation previous text (done ++ segment :: later)) :
    ∃ rest behind, text = done.flatMap written ++ rest ∧
      Begins ((done.flatMap written).getLast?.or previous) rest segment behind := by
  obtain ⟨rest, htext, hrest⟩ := h.exists_append
  cases hrest with
  | @cons _ _ behind _ _ hbegins _ => exact ⟨rest, behind, htext, hbegins⟩

/-- Every offset of a text is in one of its segments. -/
theorem exists_segment_at
    {segments : List Segment} {offset : Nat}
    (hoffset : offset < (segments.flatMap written).length) :
    ∃ (done : List Segment) (segment : Segment) (later : List Segment),
      segments = done ++ segment :: later ∧
      (done.flatMap written).length ≤ offset ∧
      offset < (done.flatMap written).length + segment.written.length := by
  induction segments generalizing offset with
  | nil => simp at hoffset
  | cons segment segments ih =>
      by_cases hhere : offset < segment.written.length
      · exact ⟨[], segment, segments, rfl, by simp, by simpa using hhere⟩
      · rw [List.flatMap_cons, List.length_append] at hoffset
        obtain ⟨done, other, later, rfl, hstart, hfinish⟩ :=
          @ih (offset - segment.written.length) (by omega)
        refine ⟨segment :: done, other, later, rfl, ?_, ?_⟩
        · rw [List.flatMap_cons, List.length_append]
          omega
        · rw [List.flatMap_cons, List.length_append]
          omega

end Segment

namespace Token

section OfSegments

variable {index start : Nat} {place : Place} {segments : List Segment} {token : Token}

theorem map_index_ofSegments :
    (ofSegments index start place segments).map Token.index =
      List.range' index (ofSegments index start place segments).length := by
  induction segments generalizing index start place with
  | nil => rfl
  | cons segment rest ih =>
      cases segment with
      | reference opening reading => simp only [ofSegments, List.map_cons, List.length_cons, ih,
          List.range'_succ]
      | _ => exact ih

theorem ofSegments_append (done later : List Segment) :
    ofSegments index start place (done ++ later) =
      ofSegments index start place done ++
        ofSegments (index + (ofSegments index start place done).length)
          (start + (done.flatMap Segment.written).length)
          (place.after (done.flatMap Segment.written)) later := by
  induction done generalizing index start place with
  | nil => rfl
  | cons segment done ih =>
      have hstart (later : Nat) : start + segment.written.length + later =
          start + (segment.written.length + later) := Nat.add_assoc ..
      cases segment with
      | reference opening reading =>
          have hindex (later : Nat) : index + 1 + later = index + (later + 1) := by omega
          simp only [List.cons_append, ofSegments, ih, List.flatMap_cons, List.length_append,
            List.length_cons, Place.after_append, hindex, hstart]
      | _ =>
          simp only [List.cons_append, ofSegments, ih, List.flatMap_cons, List.length_append,
            Place.after_append, hstart]

theorem start_of_mem_ofSegments (hmem : token ∈ ofSegments index start place segments) :
    start ≤ token.start ∧
      token.start < start + (segments.flatMap Segment.written).length := by
  obtain ⟨done, opening, later, rfl, hstart, -⟩ := exists_reference_of_mem_ofSegments hmem
  rw [List.flatMap_append, List.flatMap_cons, List.length_append, List.length_append, hstart,
    Segment.written, Reading.written_eq]
  simp [Reading.closing, String.text]

/-- A reference is a token. -/
theorem exists_token_of_split
    {text opening : Text} {done later : List Segment} {reading : Reading}
    (hsplit : Segment.split none text = done ++ .reference opening reading :: later) :
    ∃ token ∈ scan text,
      token.start = (done.flatMap Segment.written).length ∧ token.reading = reading := by
  rw [scan, hsplit, ofSegments_append]
  exact ⟨_, List.mem_append_right _ List.mem_cons_self, Nat.zero_add _, rfl⟩

end OfSegments

/-- Where a token stands in its text, and what stands there. -/
structure StandsIn (text : Text) (token : Token) : Prop where
  opening : Segment.IsOpening (text.between token.start (token.start + openingLength))
  apart : Segment.continuesName (text.take token.start).getLast? = false
  closed : text.between (token.finish - 1) token.finish = ")".text
  unbroken : ∀ c ∈ text.between token.start token.finish, isBreak c = false
  nonempty : token.raw ≠ []
  raw : text.between token.payloadStart token.payloadFinish = token.raw
  quoted : text.between (token.payloadStart - token.quote.mark.length)
      (token.payloadFinish + token.quote.mark.length) =
    token.quote.mark ++ token.raw ++ token.quote.mark
  inside : token.start + openingLength + token.quote.mark.length ≤ token.payloadStart ∧
    token.payloadFinish + token.quote.mark.length < token.finish ∧ token.finish ≤ text.length
  line : token.place.line = (text.take token.start).count (.char '\n')
  column : ∃ above line : Text, text.take token.start = above ++ line ∧
    (above = [] ∨ above.getLast? = some (.char '\n')) ∧ CodePoint.char '\n' ∉ line ∧
    token.place.column = line.length

theorem standsIn_of_parts
    {text before opening behind : Text} {token : Token}
    (htext : text = before ++ (opening ++ (token.reading.written ++ behind)))
    (hopening : Segment.IsOpening opening) (hreading : token.reading.WellFormed)
    (hprevious : Segment.continuesName before.getLast? = false)
    (hstart : token.start = before.length) (hplace : token.place = Place.start.after before) :
    token.StandsIn text := by
  have hlength := hopening.length_eq
  have htake : text.take token.start = before := by rw [htext, hstart, List.take_left]
  have hwritten : token.reading.written.length = token.reading.leading.length +
      token.quote.mark.length + token.raw.length + token.quote.mark.length +
      token.reading.trailing.length + 1 := by
    simp [Reading.written, raw, quote, String.text, Text.ofChars]
    omega
  have hpayloadStart : token.payloadStart = before.length + openingLength +
      token.reading.leading.length + token.quote.mark.length := by
    rw [payloadStart, payloadDistance, Reading.lead, hstart, quote]
    omega
  have hpayloadFinish : token.payloadFinish = token.payloadStart + token.raw.length := rfl
  have hfinish : token.finish = before.length + openingLength + token.reading.written.length := by
    rw [finish, length, hstart]
    omega
  exact {
    opening := by
      have hpart : text.between token.start (token.start + openingLength) = opening :=
        Text.between_eq htext hstart (by rw [hlength, hstart])
      rwa [hpart]
    apart := by rwa [htake]
    closed := by
      refine @Text.between_eq _ (before ++ opening ++ token.reading.leading ++ token.quote.mark ++
        token.raw ++ token.quote.mark ++ token.reading.trailing) _ behind _ _ ?_ ?_ ?_
      · simp [htext, Reading.written, raw, quote]
      · simp only [List.length_append]
        omega
      · simp only [List.length_append, String.text, Text.ofChars, List.length_map]
        simp
        omega
    unbroken := by
      have hpart : text.between token.start token.finish = opening ++ token.reading.written := by
        refine Text.between_eq (by rw [htext, List.append_assoc]) hstart ?_
        rw [List.length_append]
        omega
      intro c hc
      rw [hpart] at hc
      rcases List.mem_append.mp hc with hc | hc
      · exact hopening.not_isBreak c hc
      · exact hreading.not_isBreak_written c hc
    nonempty := hreading.nonempty
    raw := by
      refine @Text.between_eq _ (before ++ opening ++ token.reading.leading ++ token.quote.mark) _
        (token.reading.closing ++ behind) _ _ ?_ ?_ ?_
      · simp [htext, Reading.written_eq, raw, quote]
      · simp only [List.length_append]
        omega
      · simp only [List.length_append]
        omega
    quoted := by
      refine @Text.between_eq _ (before ++ opening ++ token.reading.leading) _
        (token.reading.trailing ++ ")".text ++ behind) _ _ ?_ ?_ ?_
      · simp [htext, Reading.written, raw, quote]
      · simp only [List.length_append]
        omega
      · simp only [List.length_append]
        omega
    inside := by
      have htotal := congrArg List.length htext
      simp only [List.length_append] at htotal
      refine ⟨by omega, by omega, by omega⟩
    line := by
      rw [htake, hplace, Place.line_after]
      exact Nat.zero_add _
    column := by
      rw [htake, hplace]
      exact Place.exists_line_of_after_start before }

/-- A token and its text: what is before it, its opening, and what is behind it. -/
theorem exists_parts_of_mem_scan {text : Text} {token : Token} (hmem : token ∈ scan text) :
    ∃ before opening behind,
      text = before ++ (opening ++ (token.reading.written ++ behind)) ∧
        Segment.IsOpening opening ∧ Segment.continuesName before.getLast? = false ∧
        token.start = before.length ∧ token.place = Place.start.after before := by
  obtain ⟨done, opening, later, hsplit, hstart, hplace⟩ := exists_reference_of_mem_ofSegments hmem
  have hsegmentation : Segment.Segmentation none text
      (done ++ .reference opening token.reading :: later) :=
    Segment.segmentation_iff.mpr hsplit.symm
  obtain ⟨rest, behind, htext, hbegins⟩ := hsegmentation.exists_begins
  have hrest := hbegins.text_eq
  rw [Option.or_none] at hbegins
  rw [Nat.zero_add] at hstart
  generalize htoken : Segment.reference opening token.reading = segment at hbegins hrest
  cases hbegins with
  | reference hopening hprevious hread =>
      obtain ⟨rfl, rfl⟩ := Segment.reference.inj htoken
      refine ⟨_, opening, behind, ?_, hopening, hprevious, hstart, hplace⟩
      rw [htext, hrest, Segment.written, List.append_assoc]
  | _ => simp at htoken

theorem standsIn_of_mem_scan {text : Text} {token : Token} (hmem : token ∈ scan text) :
    token.StandsIn text := by
  obtain ⟨before, opening, behind, htext, hopening, hprevious, hstart, hplace⟩ :=
    exists_parts_of_mem_scan hmem
  exact standsIn_of_parts htext hopening (wellFormed_of_mem_scan hmem) hprevious hstart hplace

/-- An opening behind the start of a segment is inside a token, a comment or a string; the
other segments are too short for one. -/
theorem exists_segment_around
    {text : Text} {offset : Nat} {done later : List Segment} {segment : Segment}
    (hsplit : Segment.split none text = done ++ segment :: later)
    (hopening : Segment.IsOpening (text.between offset (offset + openingLength)))
    (hstart : (done.flatMap Segment.written).length < offset)
    (hfinish : offset < (done.flatMap Segment.written).length + segment.written.length) :
    (∃ token ∈ scan text, token.start < offset ∧ offset < token.finish) ∨
      ∃ (done : List Segment) (written : Text) (later : List Segment),
        (Segment.split none text = done ++ .comment written :: later ∨
          Segment.split none text = done ++ .string written :: later) ∧
        (done.flatMap Segment.written).length < offset ∧
        offset < (done.flatMap Segment.written).length + written.length := by
  obtain ⟨rest, behind, htext, hbegins⟩ :=
    (Segment.segmentation_iff.mpr hsplit.symm).exists_begins
  cases hbegins with
  | comment => exact .inr ⟨done, _, later, .inl hsplit, hstart, hfinish⟩
  | string => exact .inr ⟨done, _, later, .inr hsplit, hstart, hfinish⟩
  | reference hopening' =>
      obtain ⟨token, hmem, htoken, hreading⟩ := exists_token_of_split hsplit
      rw [Segment.written, List.length_append, hopening'.length_eq] at hfinish
      refine .inl ⟨token, hmem, by omega, ?_⟩
      rw [finish, length, htoken, hreading]
      omega
  | @malformed opening' _ hopening' =>
      rw [Segment.written, hopening'.length_eq] at hfinish
      have hdrop : text.drop offset = (opening' ++ behind).drop
          (offset - (done.flatMap Segment.written).length) := by
        rw [htext, List.drop_append, List.drop_eq_nil_of_le hstart.le, List.nil_append]
      rw [Text.between_add, hdrop] at hopening
      exact absurd hopening (hopening'.not_isOpening_drop (by omega) (by omega) behind)
  | plain =>
      rw [Segment.written, List.length_singleton] at hfinish
      omega

/-- An opening with a reading behind it is a token, or starts inside a token, a comment or a
string. -/
theorem exists_segment_of_reading
    {text behind : Text} {offset : Nat} {reading : Reading}
    (hopening : Segment.IsOpening (text.between offset (offset + openingLength)))
    (hprevious : Segment.continuesName (text.take offset).getLast? = false)
    (hread : Reading.read? (text.drop (offset + openingLength)) = some (reading, behind)) :
    (∃ token ∈ scan text, token.start = offset ∧ token.reading = reading) ∨
      (∃ token ∈ scan text, token.start < offset ∧ offset < token.finish) ∨
      ∃ (done : List Segment) (written : Text) (later : List Segment),
        (Segment.split none text = done ++ .comment written :: later ∨
          Segment.split none text = done ++ .string written :: later) ∧
        (done.flatMap Segment.written).length < offset ∧
        offset < (done.flatMap Segment.written).length + written.length := by
  have hlength := hopening.length_eq
  have hinside : offset < ((Segment.split none text).flatMap Segment.written).length := by
    rw [Segment.flatMap_written]
    rw [Text.between_add, List.length_take, List.length_drop, openingLength] at hlength
    omega
  obtain ⟨done, segment, later, hsplit, hstart, hfinish⟩ := Segment.exists_segment_at hinside
  -- The opening lies in one segment.  At its start it decides what the segment is.
  rcases hstart.eq_or_lt with hhere | hbehind
  · obtain ⟨rest, behind', htext, hbegins⟩ :=
      (Segment.segmentation_iff.mpr hsplit.symm).exists_begins
    rw [Option.or_none] at hbegins
    have htake : text.take offset = done.flatMap Segment.written := by
      rw [htext, ← hhere, List.take_left]
    have hdrop : text.drop offset = rest := by rw [htext, ← hhere, List.drop_left]
    have hreference : Segment.Begins (done.flatMap Segment.written).getLast? rest
        (.reference (text.between offset (offset + openingLength)) reading) behind := by
      have hsplits : rest = text.between offset (offset + openingLength) ++
          text.drop (offset + openingLength) := by
        rw [Text.between_add, ← List.drop_drop, hdrop, List.take_append_drop]
      rw [hsplits, ← htake]
      exact .reference hopening hprevious hread
    obtain rfl := hbegins.unique hreference
    obtain ⟨token, hmem, htoken, hreading⟩ := exists_token_of_split hsplit
    exact .inl ⟨token, hmem, htoken.trans hhere, hreading⟩
  · exact .inr (exists_segment_around hsplit hopening hbehind hfinish)

/-- The tokens of a text are numbered from zero and stand in it one behind the other, each
where its parts are.  An opening with a reading behind it is a token, or starts inside a
token, or inside a comment or a string of the one segmentation of the text. -/
theorem scan_spans (text : Text) :
    (scan text).map Token.index = List.range (scan text).length ∧
    (scan text).Pairwise (fun token token' => token.finish ≤ token'.start) ∧
    (∀ token ∈ scan text, token.StandsIn text) ∧
    ∃ segments : List Segment,
      (∀ segments', Segment.Segmentation none text segments' ↔ segments' = segments) ∧
      (∀ token ∈ scan text, ∃ (done : List Segment) (opening : Text) (later : List Segment),
        segments = done ++ .reference opening token.reading :: later ∧
          token.start = (done.flatMap Segment.written).length) ∧
      ∀ (offset : Nat) (reading : Reading) (behind : Text),
        Segment.IsOpening (text.between offset (offset + openingLength)) →
        Segment.continuesName (text.take offset).getLast? = false →
        Reading.read? (text.drop (offset + openingLength)) = some (reading, behind) →
          (∃ token ∈ scan text, token.start = offset ∧ token.reading = reading) ∨
          (∃ token ∈ scan text, token.start < offset ∧ offset < token.finish) ∨
          ∃ (done : List Segment) (written : Text) (later : List Segment),
            (segments = done ++ .comment written :: later ∨
              segments = done ++ .string written :: later) ∧
            (done.flatMap Segment.written).length < offset ∧
            offset < (done.flatMap Segment.written).length + written.length := by
  refine ⟨?_, ?_, fun token => standsIn_of_mem_scan, Segment.split none text,
    fun _ => Segment.segmentation_iff, ?_, ?_⟩
  · rw [List.range_eq_range']
    exact map_index_ofSegments
  · refine (pairwise_ofSegments fun _ hsegment => Segment.isCut_of_mem_split hsegment).imp ?_
    rintro token token' ⟨gap, hstart, -⟩
    omega
  · intro token hmem
    obtain ⟨done, opening, later, hsplit, hstart, -⟩ := exists_reference_of_mem_ofSegments hmem
    exact ⟨done, opening, later, hsplit, by rw [hstart, Nat.zero_add]⟩
  · exact fun offset reading behind => exists_segment_of_reading

theorem scan_spans_of_hidden_opening :
    ∃ (text : Text) (segments : List Segment), text = "/*url(a)*/url(url('b')".text ∧
      scan text = [⟨0, 14, ⟨0, 14⟩, ⟨[], .single, ['b'], []⟩⟩] ∧
      (∀ token ∈ scan text, token.StandsIn text) ∧ Segment.Segmentation none text segments ∧
      ((∃ token ∈ scan text, token.start = 2 ∧ token.reading = ⟨[], .none, ['a'], []⟩) ∨
        (∃ token ∈ scan text, token.start < 2 ∧ 2 < token.finish) ∨
        ∃ (done : List Segment) (written : Text) (later : List Segment),
          (segments = done ++ .comment written :: later ∨
            segments = done ++ .string written :: later) ∧
          (done.flatMap Segment.written).length < 2 ∧
          2 < (done.flatMap Segment.written).length + written.length) := by
  obtain ⟨-, -, hstands, segments, hsegments, -, hfound⟩ :=
    scan_spans "/*url(a)*/url(url('b')".text
  have hinside := hfound 2 ⟨[], .none, ['a'], []⟩ "*/url(url('b')".text
    ⟨'u', 'r', 'l', by cbv, .inl rfl, .inl rfl, .inl rfl⟩ (by cbv) (by cbv)
  have hscan : scan "/*url(a)*/url(url('b')".text =
      [⟨0, 14, ⟨0, 14⟩, ⟨[], .single, ['b'], []⟩⟩] := by
    decide +kernel
  exact ⟨_, segments, rfl, hscan, hstands, (hsegments segments).mpr rfl, hinside⟩

end Token

end UrlRebase
