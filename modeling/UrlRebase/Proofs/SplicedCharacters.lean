import UrlRebase.Proofs.EditedText
import UrlRebase.Proofs.TokenSpans

/-!
# The characters of a spliced text

Splicing puts slices of a text and new payloads behind one another, and `Edit.shift` adds up
lengths along a line without looking at the text.  They agree: a character outside the payloads
stands, after the edits, on its line at the column to which its own is shifted.

Up to such a character some edits are done and the others lie behind it.  The spliced text goes
through the edits that are done (`spliceFrom_append`), and the place to which it comes is the
place of the character moved by what these edits add to its line (`OnLines.follows`).
-/

namespace UrlRebase

namespace Text

/-- The character at a place of a text whose first character stands at the place `here`. -/
def characterFrom? (here place : Place) : Text → Option CodePoint
  | [] => none
  | c :: rest => if here = place then some c else characterFrom? (here.step c) place rest

def characterAt? (text : Text) (place : Place) : Option CodePoint :=
  characterFrom? .start place text

theorem characterFrom?_after_append
    (here : Place) (before : Text) (c : CodePoint) (behind : Text) :
    characterFrom? here (here.after before) (before ++ c :: behind) = some c := by
  induction before generalizing here with
  | nil => simp [characterFrom?]
  | cons d before ih =>
      have hne : here ≠ (here.step d).after before := by
        intro heq
        have hreach := (here.step d).reaches_after before
        rw [← heq] at hreach
        unfold Place.Reaches Place.step at hreach
        split at hreach <;> simp at hreach
      rw [List.cons_append, characterFrom?, Place.after_cons, if_neg hne]
      exact ih (here.step d)

theorem take_append_between (text : Text) {start finish : Nat} (hle : start ≤ finish) :
    text.take start ++ text.between start finish = text.take finish := by
  have htake : text.take start = (text.take finish).take start := by
    rw [List.take_take, min_eq_left hle]
  rw [between, htake, List.take_append_drop]

theorem between_append_drop (text : Text) {start finish : Nat} (hle : start ≤ finish) :
    text.between start finish ++ text.drop finish = text.drop start := by
  have hdrop : text.drop finish = (text.drop start).drop (finish - start) := by
    rw [List.drop_drop, Nat.add_sub_cancel' hle]
  rw [between, List.drop_take, hdrop, List.take_append_drop]

end Text

theorem Place.reaches_after_take (text : Text) {offset offset' : Nat} (hle : offset ≤ offset') :
    (start.after (text.take offset)).Reaches (start.after (text.take offset')) := by
  rw [← text.take_append_between hle, after_append]
  exact reaches_after _ _

namespace Token

section Places

variable {text : Text} {token : Token}

theorem after_take_start (hmem : token ∈ scan text) :
    Place.start.after (text.take token.start) = token.place := by
  obtain ⟨done, opening, later, hsplit, hstart, hplace⟩ := exists_reference_of_mem_ofSegments hmem
  have htext := Segment.flatMap_written none text
  rw [hsplit, List.flatMap_append] at htext
  rw [hplace, hstart, Nat.zero_add, ← htext, List.take_left]

/-- A token never leaves its line, so offsets in it count columns. -/
theorem after_take
    (hmem : token ∈ scan text) {offset : Nat} (hstart : token.start ≤ offset)
    (hfinish : offset ≤ token.finish) :
    Place.start.after (text.take offset) =
      ⟨token.place.line, token.place.column + (offset - token.start)⟩ := by
  have hstands := standsIn_of_mem_scan hmem
  have hinside : token.finish ≤ text.length := hstands.inside.2.2
  have hbreak : ∀ c ∈ text.between token.start offset, isBreak c = false := by
    intro c hc
    have hpart : text.between token.start offset <+: text.between token.start token.finish :=
      (List.take_prefix_take_left hfinish).drop token.start
    exact hstands.unbroken c (hpart.subset hc)
  have hlength : (text.between token.start offset).length = offset - token.start := by
    rw [Text.between, List.length_drop, List.length_take_of_le (hfinish.trans hinside)]
  rw [← text.take_append_between hstart, Place.after_append, after_take_start hmem,
    Place.after_of_not_isBreak hbreak, hlength]

theorem after_take_payloadStart (hmem : token ∈ scan text) :
    Place.start.after (text.take token.payloadStart) =
      ⟨token.place.line, token.payloadColumn⟩ := by
  have hinside := (standsIn_of_mem_scan hmem).inside
  have hpayload : token.payloadStart - token.start = token.payloadDistance :=
    Nat.add_sub_cancel_left _ _
  have hstart : token.start ≤ token.payloadStart := Nat.le_add_right _ _
  have hfinish : token.payloadStart ≤ token.payloadFinish := Nat.le_add_right _ _
  rw [after_take hmem hstart (by omega), hpayload, payloadColumn]

theorem after_take_payloadFinish (hmem : token ∈ scan text) :
    Place.start.after (text.take token.payloadFinish) =
      ⟨token.place.line, token.payloadFinishColumn⟩ := by
  have hinside := (standsIn_of_mem_scan hmem).inside
  have hpayload : token.payloadFinish - token.start = token.payloadDistance + token.raw.length := by
    simp only [payloadFinish, payloadStart]
    omega
  have hstart : token.start ≤ token.payloadFinish := by
    simp only [payloadFinish, payloadStart]
    omega
  rw [after_take hmem hstart (by omega), hpayload, payloadFinishColumn, payloadColumn,
    Nat.add_assoc]

theorem pairwise_payloads (text : Text) :
    (scan text).Pairwise fun token token' => token.payloadFinish ≤ token'.payloadStart := by
  have hspans : (scan text).Pairwise fun token token' => ∃ gap : Text,
      token'.start = token.finish + gap.length ∧ token'.place = token.finishPlace.after gap :=
    pairwise_ofSegments fun _ hsegment => Segment.isCut_of_mem_split hsegment
  refine hspans.imp_of_mem ?_
  rintro token token' hmem - ⟨gap, hstart, -⟩
  have hinside := (standsIn_of_mem_scan hmem).inside
  simp only [payloadStart]
  omega

end Places

end Token

namespace Edit

section Splice

variable {text : Text} {edits done todo : List Edit} {offset mark : Nat}

theorem spliceFrom_of_le
    (hle : offset ≤ mark) (htodo : ∀ edit ∈ todo, mark ≤ edit.token.payloadStart) :
    spliceFrom text offset todo = text.between offset mark ++ spliceFrom text mark todo := by
  cases todo with
  | nil => exact (text.between_append_drop hle).symm
  | cons edit rest =>
      have hmark := htodo edit List.mem_cons_self
      have htake : (text.drop offset).take (edit.token.payloadStart - offset) =
          text.between offset mark ++ (text.drop mark).take (edit.token.payloadStart - mark) := by
        have hlength : edit.token.payloadStart - offset =
            (mark - offset) + (edit.token.payloadStart - mark) := by
          omega
        rw [hlength, List.take_add, Text.between, List.drop_take, List.drop_drop,
          Nat.add_sub_cancel' hle]
      simp only [spliceFrom, htake, List.append_assoc]

/-- Edits on either side of an offset are made apart. -/
theorem spliceFrom_append
    (hle : offset ≤ mark) (hdone : ∀ edit ∈ done, edit.token.payloadFinish ≤ mark)
    (htodo : ∀ edit ∈ todo, mark ≤ edit.token.payloadStart) :
    spliceFrom text offset (done ++ todo) =
      spliceFrom (text.take mark) offset done ++ spliceFrom text mark todo := by
  induction done generalizing offset with
  | nil => exact spliceFrom_of_le hle htodo
  | cons edit done ih =>
      have hfinish := hdone edit List.mem_cons_self
      have hrest := ih hfinish fun edit' hedit' => hdone edit' (List.mem_cons_of_mem edit hedit')
      have htake : ((text.take mark).drop offset).take (edit.token.payloadStart - offset) =
          (text.drop offset).take (edit.token.payloadStart - offset) := by
        simp only [Token.payloadFinish] at hfinish
        rw [List.drop_take, List.take_take, min_eq_left (by omega)]
      simp only [List.cons_append, spliceFrom, hrest, htake, List.append_assoc]

theorem Follows.append_edit
    {edit : Edit} {place' : Place}
    (h : Follows done ⟨edit.token.place.line, edit.token.payloadColumn⟩ place')
    (hnewline : CodePoint.char '\n' ∉ edit.text) :
    Follows (done ++ [edit]) ⟨edit.token.place.line, edit.token.payloadFinishColumn⟩
      (place'.after edit.text) := by
  have hcolumn := h.column
  have hdelta := lineDelta_append_singleton done edit
  have hpayload := edit.delta_eq
  rw [Place.after_of_notMem hnewline]
  refine ⟨h.line, ?_, ?_⟩
  · simp only [hdelta, Nat.cast_add]
    simp only at hcolumn
    omega
  · intro edit' hedit'
    rcases List.mem_append.mp hedit' with hedit' | hedit'
    · exact h.reached edit' hedit'
    · obtain rfl := List.mem_singleton.mp hedit'
      exact le_rfl

/-- Edits of tokens of a text one behind the other, each of which stays on its line. -/
structure OnLines (text : Text) (edits : List Edit) : Prop where
  mem : ∀ edit ∈ edits, edit.token ∈ Token.scan text
  apart : edits.Pairwise fun edit edit' => edit.token.payloadFinish ≤ edit'.token.payloadStart
  unbroken : ∀ edit ∈ edits, CodePoint.char '\n' ∉ edit.text

theorem onLines_of_scan
    (htokens : edits.map token = Token.scan text)
    (hedits : ∀ edit ∈ edits, CodePoint.char '\n' ∉ edit.text) :
    OnLines text edits where
  mem := by
    intro edit hedit
    rw [← htokens]
    exact List.mem_map_of_mem hedit
  apart := by
    have hpairwise := Token.pairwise_payloads text
    rwa [← htokens, List.pairwise_map] at hpairwise
  unbroken := hedits

theorem OnLines.left (h : OnLines text (done ++ todo)) : OnLines text done where
  mem edit hedit := h.mem edit (List.mem_append_left _ hedit)
  apart := (List.pairwise_append.mp h.apart).1
  unbroken edit hedit := h.unbroken edit (List.mem_append_left _ hedit)

/-- Where a text that is spliced up to an offset comes to. -/
theorem OnLines.follows
    (h : OnLines text done) (hdone : ∀ edit ∈ done, edit.token.payloadFinish ≤ mark) :
    Follows done (Place.start.after (text.take mark))
      (Place.start.after (splice (text.take mark) done)) := by
  -- The last edit is made at the place that the edits before it lead to, up to its payload.
  induction done using List.reverseRecOn generalizing mark with
  | nil => exact ⟨rfl, by simp [lineDelta, splice, spliceFrom], by simp⟩
  | append_singleton done edit ih =>
      have hedit : edit ∈ done ++ [edit] := List.mem_append_right _ (List.mem_singleton_self edit)
      have hpayloads : ∀ edit' ∈ done, edit'.token.payloadFinish ≤ edit.token.payloadStart :=
        fun edit' hedit' =>
          (List.pairwise_append.mp h.apart).2.2 edit' hedit' edit (List.mem_singleton_self edit)
      have hfinish := hdone edit hedit
      have hstart : edit.token.payloadStart ≤ mark :=
        (Nat.le_add_right _ _).trans hfinish
      have hfollows := ih h.left hpayloads
      rw [Token.after_take_payloadStart (h.mem edit hedit)] at hfollows
      have hsplice : splice (text.take mark) (done ++ [edit]) =
          splice (text.take edit.token.payloadStart) done ++
            (edit.text ++ text.between edit.token.payloadFinish mark) := by
        rw [splice, spliceFrom_append (Nat.zero_le _) hpayloads (by simp), List.take_take,
          min_eq_left hstart]
        simp [splice, spliceFrom, Text.between]
      rw [hsplice, ← text.take_append_between hfinish, Place.after_append, Place.after_append,
        Place.after_append, Token.after_take_payloadFinish (h.mem edit hedit)]
      exact (hfollows.append_edit (h.unbroken edit hedit)).after _

theorem OnLines.lineCount_splice (h : OnLines text edits) :
    (splice text edits).lineCount = text.lineCount := by
  have hfinish : ∀ edit ∈ edits, edit.token.payloadFinish ≤ text.length := by
    intro edit hedit
    have hinside := (Token.standsIn_of_mem_scan (h.mem edit hedit)).inside
    omega
  have hline := (h.follows hfinish).line
  rw [List.take_length, Place.line_after, Place.line_after] at hline
  unfold Text.lineCount
  omega

/-- A character with some payloads before it and the others behind it. -/
theorem OnLines.characterAt?_splice
    (h : OnLines text (done ++ todo)) (horder : InOrder (done ++ todo))
    (hdone : ∀ edit ∈ done, edit.token.payloadFinish ≤ offset)
    (htodo : ∀ edit ∈ todo, offset < edit.token.payloadStart) (hoffset : offset < text.length) :
    ∃ place : Place, place.line = (text.placeOf offset).line ∧
      (place.column : Int) =
        shift (done ++ todo) (text.placeOf offset).line (text.placeOf offset).column ∧
      (splice text (done ++ todo)).characterAt? place = some text[offset] := by
  have hfollows := h.left.follows hdone
  rw [text.placeOf_of_le hoffset.le]
  refine ⟨Place.start.after (splice (text.take offset) done), hfollows.line, ?_, ?_⟩
  · rw [hfollows.column]
    refine (shift_append horder ?_ ?_).symm
    · intro edit hedit hline
      have hreach := Place.reaches_after_take text (hdone edit hedit)
      rw [Token.after_take_payloadFinish (h.left.mem edit hedit)] at hreach
      simp only [Place.Reaches] at hreach
      omega
    · intro edit hedit hline
      have hreach := Place.reaches_after_take text (htodo edit hedit).le
      rw [Token.after_take_payloadStart (h.mem edit (List.mem_append_right _ hedit))] at hreach
      simp only [Place.Reaches] at hreach
      omega
  · have hbehind : spliceFrom text offset todo =
        text.between offset (offset + 1) ++ spliceFrom text (offset + 1) todo :=
      spliceFrom_of_le (Nat.le_succ offset) htodo
    have hcharacter : text.between offset (offset + 1) = [text[offset]] := by
      rw [Text.between_add, List.drop_eq_getElem_cons hoffset]
      rfl
    rw [hcharacter, List.singleton_append] at hbehind
    rw [splice, spliceFrom_append (Nat.zero_le _) hdone fun edit hedit => (htodo edit hedit).le,
      hbehind]
    exact Text.characterFrom?_after_append .start _ _ _

theorem exists_append_of_outside
    (horder : edits.Pairwise fun edit edit' =>
      edit.token.payloadFinish ≤ edit'.token.payloadStart)
    (houtside : ∀ edit ∈ edits,
      offset < edit.token.payloadStart ∨ edit.token.payloadFinish ≤ offset) :
    ∃ done todo, edits = done ++ todo ∧ (∀ edit ∈ done, edit.token.payloadFinish ≤ offset) ∧
      ∀ edit ∈ todo, offset < edit.token.payloadStart := by
  induction edits with
  | nil => exact ⟨[], [], rfl, by simp, by simp⟩
  | cons edit edits ih =>
      obtain ⟨hfirst, horder⟩ := List.pairwise_cons.mp horder
      rcases houtside edit List.mem_cons_self with hbefore | hbehind
      · refine ⟨[], edit :: edits, rfl, by simp, ?_⟩
        intro edit' hedit'
        rcases List.mem_cons.mp hedit' with rfl | hedit'
        · exact hbefore
        · have hle := hfirst edit' hedit'
          simp only [Token.payloadFinish] at hle
          omega
      · obtain ⟨done, todo, rfl, hdone, htodo⟩ :=
          ih horder fun edit' hedit' => houtside edit' (List.mem_cons_of_mem edit hedit')
        refine ⟨edit :: done, todo, rfl, ?_, htodo⟩
        exact List.forall_mem_cons.mpr ⟨hbehind, hdone⟩

end Splice

/-- Edits that stay on their lines keep the number of lines, and a character outside the
payloads keeps its line and stands at the column to which its own is shifted. -/
theorem characters_of_splice
    {text : Text} {edits : List Edit} (htokens : edits.map token = Token.scan text)
    (hedits : ∀ edit ∈ edits, edit.text ≠ [] ∧ CodePoint.char '\n' ∉ edit.text) :
    (splice text edits).lineCount = text.lineCount ∧
    (∀ (offset : Nat) (hoffset : offset < text.length),
      (∀ token ∈ Token.scan text,
        offset < token.payloadStart ∨ token.payloadFinish ≤ offset) →
      ∃ place : Place, place.line = (text.placeOf offset).line ∧
        (place.column : Int) =
          shift edits (text.placeOf offset).line (text.placeOf offset).column ∧
        (splice text edits).characterAt? place = some text[offset]) ∧
    ∀ line : Int, Monotone (shift edits line) ∧
      StrictMonoOn (shift edits line) {column | ¬Inside edits line column} := by
  have hinOrder := inOrder_of_scan htokens
  have honLines := onLines_of_scan htokens fun edit hedit => (hedits edit hedit).2
  refine ⟨honLines.lineCount_splice, ?_, ?_⟩
  · intro offset hoffset houtside
    obtain ⟨done, todo, rfl, hdone, htodo⟩ := exists_append_of_outside honLines.apart
      fun edit hedit => houtside edit.token (honLines.mem edit hedit)
    exact honLines.characterAt?_splice hinOrder hdone htodo hoffset
  · intro line
    refine ⟨fun column column' hle => shift_le_shift hinOrder line hle, ?_⟩
    intro column hcolumn column' _ hlt
    exact shift_lt_shift hinOrder (fun edit hedit => (hedits edit hedit).1) hcolumn hlt

theorem characters_of_splice_of_neighbours :
    ∃ (text : Text) (edits : List Edit),
      text = "url(a)url('bcd') x\ny".text ∧
      edits = List.zipWith Edit.mk (Token.scan text) ["longer".text, "e".text] ∧
      edits.map token = Token.scan text ∧
      (∀ edit ∈ edits, edit.text ≠ [] ∧ CodePoint.char '\n' ∉ edit.text) ∧
      splice text edits = "url(longer)url('e') x\ny".text ∧
      (splice text edits).lineCount = text.lineCount ∧
      (∃ place : Place, place.line = 0 ∧ (place.column : Int) = shift edits 0 17 ∧
        (splice text edits).characterAt? place = some 'x') ∧
      StrictMonoOn (shift edits 0) {column | ¬Inside edits 0 column} := by
  generalize hedits :
    List.zipWith Edit.mk (Token.scan "url(a)url('bcd') x\ny".text) ["longer".text, "e".text] = edits
  have htokens : edits.map token = Token.scan "url(a)url('bcd') x\ny".text := by
    subst hedits
    decide +kernel
  have htexts : ∀ edit ∈ edits, edit.text ≠ [] ∧ CodePoint.char '\n' ∉ edit.text := by
    subst hedits
    decide +kernel
  obtain ⟨hlines, hcharacters, horder⟩ := characters_of_splice htokens htexts
  have hx := hcharacters 17 (by decide) (by decide +kernel)
  refine ⟨_, edits, rfl, hedits.symm, htokens, htexts, ?_, hlines, hx, (horder 0).2⟩
  subst hedits
  decide +kernel

end Edit

end UrlRebase
