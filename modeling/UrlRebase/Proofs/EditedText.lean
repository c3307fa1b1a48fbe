import UrlRebase.Proofs.ColumnShift
import UrlRebase.Proofs.RewordedSegments

/-!
# The tokens of an edited text

Splicing edits into a text replaces the payloads of its references one by one, so the
edited text is made of the reworded segments of the text.  Where the new payloads are
well-formed its tokens are therefore those of the text with the new payloads, each on its
old line and at the column to which `Edit.shift` moves its old one.
-/

namespace UrlRebase

namespace Edit

/-- The segments with the payloads of their references replaced in order. -/
def reword : List Edit → List Segment → List Segment
  | _, [] => []
  | edit :: edits, .reference opening reading :: rest =>
      .reference opening { reading with raw := edit.text } :: reword edits rest
  | edits, segment :: rest => segment :: reword edits rest

/-- Whether a text may stand in place of the payload of a token. -/
def Fits (edit : Edit) : Prop :=
  ({ edit.token.reading with raw := edit.text } : Reading).WellFormed

section OfSegments

variable {index start : Nat} {place : Place} {edits : List Edit}

theorem reworded_reword
    {segments : List Segment} (hcut : ∀ segment ∈ segments, segment.IsCut)
    (hedits : edits.map token = Token.ofSegments index start place segments)
    (hfits : ∀ edit ∈ edits, edit.Fits) :
    List.Forall₂ Segment.Reworded segments (reword edits segments) := by
  induction segments generalizing index start place edits with
  | nil => simp [reword]
  | cons segment rest ih =>
      have hrest : ∀ segment ∈ rest, segment.IsCut := fun segment hsegment =>
        hcut segment (List.mem_cons_of_mem _ hsegment)
      cases segment with
      | reference opening reading =>
          obtain ⟨edit, edits, rfl, htoken, hedits⟩ := List.map_eq_cons_iff.mp hedits
          have hopening := (hcut _ List.mem_cons_self opening reading rfl).1
          have hreading := hfits edit List.mem_cons_self
          rw [Fits, htoken] at hreading
          exact .cons (.reference hopening hreading)
            (ih hrest hedits fun edit' hedit' => hfits edit' (List.mem_cons_of_mem edit hedit'))
      | _ => exact .cons (.unchanged (by simp)) (ih hrest hedits hfits)

theorem take_drop_eq
    {text written rest : Text} {offset start : Nat} (htext : text.drop start = written ++ rest)
    (hoffset : offset ≤ start) :
    (text.drop offset).take (start + written.length - offset) =
      (text.drop offset).take (start - offset) ++ written := by
  rw [Nat.sub_add_comm hoffset, List.take_add, List.drop_drop, Nat.add_sub_cancel' hoffset,
    htext, List.take_left]

/-! Offsets of the parts of a reference in a text that goes on with it. -/

section Reference

variable {token : Token} {text opening rest : Text} {reading : Reading} {offset : Nat}

theorem payloadStart_eq
    (hopening : Segment.IsOpening opening) (htoken : token = ⟨index, start, place, reading⟩) :
    token.payloadStart = start + (opening ++ (reading.leading ++ reading.quote.mark)).length := by
  rw [htoken]
  simp only [Token.payloadStart, Token.payloadDistance, Reading.lead, List.length_append,
    hopening.length_eq]

theorem payloadFinish_add_closing
    (hopening : Segment.IsOpening opening) (htoken : token = ⟨index, start, place, reading⟩) :
    token.payloadFinish + reading.closing.length =
      start + (Segment.reference opening reading).written.length := by
  rw [Token.payloadFinish, payloadStart_eq hopening htoken, htoken]
  simp only [Token.raw, Segment.written, Reading.written_eq, List.length_append]
  omega

theorem take_payloadStart
    (hopening : Segment.IsOpening opening) (htoken : token = ⟨index, start, place, reading⟩)
    (htext : text.drop start = (Segment.reference opening reading).written ++ rest)
    (hoffset : offset ≤ start) :
    (text.drop offset).take (token.payloadStart - offset) =
      (text.drop offset).take (start - offset) ++
        (opening ++ (reading.leading ++ reading.quote.mark)) := by
  have hhead : text.drop start =
      (opening ++ (reading.leading ++ reading.quote.mark)) ++
        (reading.raw ++ (reading.closing ++ rest)) := by
    rw [htext, Segment.written, Reading.written_eq]
    simp only [List.append_assoc]
  rw [payloadStart_eq hopening htoken]
  exact take_drop_eq hhead hoffset

theorem drop_payloadFinish
    (hopening : Segment.IsOpening opening) (htoken : token = ⟨index, start, place, reading⟩)
    (htext : text.drop start = (Segment.reference opening reading).written ++ rest) :
    text.drop token.payloadFinish = reading.closing ++ rest := by
  have hhead : text.drop start =
      (opening ++ (reading.leading ++ reading.quote.mark) ++ reading.raw) ++
        (reading.closing ++ rest) := by
    rw [htext, Segment.written, Reading.written_eq]
    simp only [List.append_assoc]
  have hfinish : token.payloadFinish =
      start + (opening ++ (reading.leading ++ reading.quote.mark) ++ reading.raw).length := by
    rw [Token.payloadFinish, payloadStart_eq hopening htoken, htoken]
    simp only [Token.raw, List.length_append, Nat.add_assoc]
  rw [hfinish, ← List.drop_drop, hhead, List.drop_left]

end Reference

/-- Splicing rewords the segments, whatever offset before them it starts at. -/
theorem spliceFrom_eq
    {text : Text} {segments : List Segment} {offset : Nat}
    (hcut : ∀ segment ∈ segments, segment.IsCut)
    (htext : text.drop start = segments.flatMap Segment.written) (hoffset : offset ≤ start)
    (hedits : edits.map token = Token.ofSegments index start place segments) :
    spliceFrom text offset edits =
      (text.drop offset).take (start - offset) ++
        (reword edits segments).flatMap Segment.written := by
  induction segments generalizing index start place edits offset with
  | nil =>
      obtain rfl : edits = [] := by simpa [Token.ofSegments] using hedits
      have hlength : text.length ≤ start := by simpa using htext
      simp only [spliceFrom, reword, List.flatMap_nil, List.append_nil]
      rw [List.take_of_length_le]
      rw [List.length_drop]
      omega
  | cons segment rest ih =>
      have hrest : ∀ segment ∈ rest, segment.IsCut := fun segment hsegment =>
        hcut segment (List.mem_cons_of_mem _ hsegment)
      rw [List.flatMap_cons] at htext
      have hdrop : text.drop (start + segment.written.length) =
          rest.flatMap Segment.written := by
        rw [← List.drop_drop, htext, List.drop_left]
      -- A segment that is no reference stays part of what the next edit leaves in front.
      have hpass
          (hedits : edits.map token = Token.ofSegments index
            (start + segment.written.length) (place.after segment.written) rest) :
          spliceFrom text offset edits =
            (text.drop offset).take (start - offset) ++
              (segment.written ++ (reword edits rest).flatMap Segment.written) := by
        rw [ih hrest hdrop (by omega) hedits, take_drop_eq htext hoffset, List.append_assoc]
      cases segment with
      | reference opening reading =>
          obtain ⟨edit, edits, rfl, htoken, hedits⟩ := List.map_eq_cons_iff.mp hedits
          have hopening := (hcut _ List.mem_cons_self opening reading rfl).1
          have hfinish := payloadFinish_add_closing hopening htoken
          have hbehind := ih hrest hdrop (Nat.le.intro hfinish) hedits
          rw [drop_payloadFinish hopening htoken htext, ← hfinish, Nat.add_sub_cancel_left,
            List.take_left] at hbehind
          rw [spliceFrom, take_payloadStart hopening htoken htext hoffset, hbehind]
          simp only [reword, List.flatMap_cons, Segment.written, Reading.written_eq,
            Reading.closing, List.append_assoc]
      | _ => simpa [reword] using hpass hedits

end OfSegments

theorem splice_eq
    {text : Text} {edits : List Edit} (hedits : edits.map token = Token.scan text) :
    splice text edits = (reword edits (Segment.split none text)).flatMap Segment.written := by
  have htext : text.drop 0 = (Segment.split none text).flatMap Segment.written := by
    rw [List.drop_zero, Segment.flatMap_written]
  have hsplice := spliceFrom_eq (fun _ hsegment => Segment.isCut_of_mem_split hsegment)
    htext le_rfl hedits
  rwa [Nat.sub_zero, List.take_zero, List.nil_append] at hsplice

/-! ## Places -/

theorem lineDelta_of_forall_ne
    {edits : List Edit} {line : Int}
    (hline : ∀ edit ∈ edits, (edit.token.place.line : Int) ≠ line) :
    lineDelta edits line = 0 := by
  have hnil : edits.filter (fun edit => edit.token.place.line = line) = [] := by
    simpa [List.filter_eq_nil_iff] using hline
  rw [lineDelta, hnil]
  rfl

theorem lineDelta_append_singleton (done : List Edit) (edit : Edit) :
    lineDelta (done ++ [edit]) edit.token.place.line =
      lineDelta done edit.token.place.line + edit.delta := by
  simp [lineDelta]

/-- A place and where it stands after some edits, none of which is on a line below it. -/
structure Follows (done : List Edit) (place place' : Place) : Prop where
  line : place'.line = place.line
  column : (place'.column : Int) = place.column + lineDelta done place.line
  reached : ∀ edit ∈ done, edit.token.place.line ≤ place.line

namespace Follows

variable {done : List Edit} {place place' : Place}

theorem step (h : Follows done place place') (c : CodePoint) :
    Follows done (place.step c) (place'.step c) := by
  have hline := h.line
  have hcolumn := h.column
  by_cases hc : c = '\n'
  · have hzero : lineDelta done (place.line + 1) = 0 := by
      apply lineDelta_of_forall_ne
      intro edit hedit
      have hreached := h.reached edit hedit
      omega
    refine ⟨by simp [Place.step, hc, hline], by simp [Place.step, hc, hzero], ?_⟩
    intro edit hedit
    simpa [Place.step, hc] using Nat.le_succ_of_le (h.reached edit hedit)
  · refine ⟨by simp [Place.step, hc, hline], ?_, ?_⟩
    · simp only [Place.step, hc, if_false, Nat.cast_add]
      omega
    · simpa [Place.step, hc] using h.reached

theorem after (h : Follows done place place') (text : Text) :
    Follows done (place.after text) (place'.after text) := by
  induction text generalizing place place' with
  | nil => exact h
  | cons c text ih => exact ih (h.step c)

end Follows

/-- A place and where it stands after some edits, all of which end at or before it. -/
structure Shifted (done : List Edit) (place place' : Place) : Prop where
  line : place'.line = place.line
  column : (place'.column : Int) = place.column + lineDelta done place.line
  behind : ∀ edit ∈ done, edit.token.finishPlace.Reaches place

namespace Shifted

variable {done : List Edit} {place place' : Place}

theorem follows (h : Shifted done place place') : Follows done place place' where
  line := h.line
  column := h.column
  reached := by
    intro edit hedit
    have hreach := h.behind edit hedit
    simp only [Place.Reaches, Token.finishPlace] at hreach
    omega

theorem after (h : Shifted done place place') (text : Text) :
    Shifted done (place.after text) (place'.after text) where
  line := (h.follows.after text).line
  column := (h.follows.after text).column
  behind := fun edit hedit => (h.behind edit hedit).trans (place.reaches_after text)

theorem after_reference
    {edit : Edit} {index start : Nat} {opening : Text} {reading : Reading}
    (h : Shifted done place place') (htoken : edit.token = ⟨index, start, place, reading⟩)
    (hcut : (Segment.reference opening reading).IsCut)
    (hcut' : (Segment.reference opening { reading with raw := edit.text }).IsCut) :
    Shifted (done ++ [edit]) (place.after (Segment.reference opening reading).written)
      (place'.after (Segment.reference opening { reading with raw := edit.text }).written) := by
  have hline := h.line
  have hcolumn := h.column
  have hdelta := lineDelta_append_singleton done edit
  rw [hcut.after_reference, hcut'.after_reference]
  refine ⟨hline, ?_, ?_⟩
  · simp only [htoken, delta, Token.raw] at hdelta
    simp only [hdelta, Reading.written_eq, Reading.closing, List.length_append]
    omega
  · intro edit' hedit'
    rcases List.mem_append.mp hedit' with hedit' | hedit'
    · exact (h.behind edit' hedit').trans (.inr ⟨rfl, Nat.le_add_right _ _⟩)
    · obtain rfl := List.mem_singleton.mp hedit'
      rw [Token.finishPlace, Token.finishColumn, Token.length, htoken]
      exact .refl _

/-- Only the edits that are done shift the place that the others are behind. -/
theorem shift_eq
    {edits : List Edit} (h : Shifted done place place') (horder : InOrder (done ++ edits))
    (hedits : ∀ edit ∈ edits, place.Reaches edit.token.place) :
    shift (done ++ edits) place.line place.column =
      place.column + lineDelta done place.line := by
  apply shift_append horder
  · intro edit hedit hline
    have hreach := h.behind edit hedit
    have hfinish := edit.token.payloadFinishColumn_lt_finishColumn
    simp only [Place.Reaches, Token.finishPlace] at hreach
    omega
  · intro edit hedit hline
    have hreach := hedits edit hedit
    have hstart := edit.token.column_lt_payloadColumn
    simp only [Place.Reaches] at hreach
    omega

end Shifted

/-- A token as the edits leave it: with its new payload, on its line, at its new column. -/
structure Landed (edits : List Edit) (edit : Edit) (token : Token) : Prop where
  index : token.index = edit.token.index
  reading : token.reading = { edit.token.reading with raw := edit.text }
  line : token.place.line = edit.token.place.line
  column : (token.place.column : Int) =
    shift edits edit.token.place.line edit.token.place.column

theorem landed_ofSegments
    {all done edits : List Edit} {index start start' : Nat} {place place' : Place}
    {segments : List Segment} (horder : InOrder all) (hall : all = done ++ edits)
    (hcut : ∀ segment ∈ segments, segment.IsCut) (hfits : ∀ edit ∈ edits, edit.Fits)
    (hedits : edits.map token = Token.ofSegments index start place segments)
    (hshifted : Shifted done place place') :
    List.Forall₂ (Landed all) edits
      (Token.ofSegments index start' place' (reword edits segments)) := by
  -- Along the segments the edits before a place are done, and it stands shifted by them.
  induction segments generalizing done edits index start start' place place' with
  | nil =>
      obtain rfl : edits = [] := by simpa [Token.ofSegments] using hedits
      exact .nil
  | cons segment rest ih =>
      have hrest : ∀ segment ∈ rest, segment.IsCut := fun segment hsegment =>
        hcut segment (List.mem_cons_of_mem _ hsegment)
      cases segment with
      | reference opening reading =>
          have hmem : ∀ edit' ∈ edits, place.Reaches edit'.token.place := by
            intro edit' hedit'
            have htoken := List.mem_map_of_mem (f := token) hedit'
            rw [hedits] at htoken
            exact (Token.mem_ofSegments hcut htoken).1
          obtain ⟨edit, edits, rfl, htoken, hedits⟩ := List.map_eq_cons_iff.mp hedits
          have hsegment := hcut _ List.mem_cons_self
          have hfit := hfits edit List.mem_cons_self
          rw [Fits, htoken] at hfit
          have hsegment' :
              (Segment.reference opening { reading with raw := edit.text }).IsCut := by
            rintro opening' reading' heq
            obtain ⟨rfl, rfl⟩ := Segment.reference.inj heq
            exact ⟨(hsegment opening reading rfl).1, hfit⟩
          have hall' : all = (done ++ [edit]) ++ edits := by
            rw [hall, List.append_assoc, List.singleton_append]
          refine .cons ⟨?_, ?_, ?_, ?_⟩ (ih hall' hrest ?_ hedits ?_)
          · rw [htoken]
          · rw [htoken]
          · rw [htoken]
            exact hshifted.line
          · rw [htoken, hall, hshifted.shift_eq (hall ▸ horder) hmem]
            exact hshifted.column
          · exact fun edit' hedit' => hfits edit' (List.mem_cons_of_mem edit hedit')
          · exact hshifted.after_reference htoken hsegment hsegment'
      | _ => exact ih hall hrest hfits hedits (hshifted.after _)

/-- The tokens of the edited text are the edited tokens, where the edits move them. -/
theorem landed_scan_splice
    {text : Text} {edits : List Edit} (hedits : edits.map token = Token.scan text)
    (hfits : ∀ edit ∈ edits, edit.Fits) :
    List.Forall₂ (Landed edits) edits (Token.scan (splice text edits)) := by
  have hcut : ∀ segment ∈ Segment.split none text, segment.IsCut :=
    fun _ hsegment => Segment.isCut_of_mem_split hsegment
  have hreworded := reworded_reword hcut hedits hfits
  rw [Token.scan, splice_eq hedits, Segment.split_flatMap_written_of_reworded hreworded]
  exact landed_ofSegments (inOrder_of_scan hedits) (List.nil_append edits).symm hcut hfits hedits
    ⟨rfl, by simp [lineDelta, Place.start], by simp⟩

end Edit

end UrlRebase
