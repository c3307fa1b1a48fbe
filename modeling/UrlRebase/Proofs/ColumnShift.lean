import UrlRebase.Edit.Basic
import UrlRebase.Proofs.ScannedTokens

/-!
# Columns under edits

`Edit.shift` adds up the edits of a line that end at or before a column, and keeps a
column inside a payload within the text that replaces the payload.  It does not matter in
which order the edits are given.  For edits in order of their tokens it never reverses
columns, and it separates any column that is not inside a payload from the ones behind and,
past the end of a payload, before it.
-/

namespace UrlRebase

namespace Edit

/-- By how much all the edits lengthen a line. -/
def lineDelta (edits : List Edit) (line : Int) : Int :=
  ((edits.filter fun edit => edit.token.place.line = line).map delta).sum

/-- Edits of tokens that stand one behind the other, none of which has an empty payload. -/
structure InOrder (edits : List Edit) : Prop where
  pairwise : edits.Pairwise fun edit edit' => edit.token.Before edit'.token
  nonempty : ∀ edit ∈ edits, edit.token.raw ≠ []

theorem inOrder_of_scan
    {text : Text} {edits : List Edit} (htokens : edits.map token = Token.scan text) :
    InOrder edits where
  pairwise := by
    have hpairwise := Token.pairwise_scan text
    rwa [← htokens, List.pairwise_map] at hpairwise
  nonempty := by
    intro edit hedit
    have hmem : edit.token ∈ Token.scan text := by
      rw [← htokens]
      exact List.mem_map_of_mem hedit
    exact (Token.wellFormed_of_mem_scan hmem).nonempty

/-- The edits that give each reference of a text the same payload. -/
def uniform (text payload : Text) : List Edit :=
  (Token.scan text).map fun token => ⟨token, payload⟩

theorem map_token_uniform (text payload : Text) :
    (uniform text payload).map token = Token.scan text := by
  rw [uniform, List.map_map]
  exact List.map_id _

theorem shiftAlong_append
    {column shifted : Int} {done todo : List Edit}
    (hdone : ∀ edit ∈ done, (edit.token.payloadFinishColumn : Int) ≤ column) :
    shiftAlong column shifted (done ++ todo) =
      shiftAlong column (shifted + (done.map delta).sum) todo := by
  induction done generalizing shifted with
  | nil => simp
  | cons edit done ih =>
      have hedit := hdone edit List.mem_cons_self
      have htail : ∀ edit ∈ done, (edit.token.payloadFinishColumn : Int) ≤ column :=
        fun edit' hedit' => hdone edit' (List.mem_cons_of_mem edit hedit')
      rw [List.cons_append, shiftAlong]
      simp only [if_pos hedit]
      rw [ih htail, List.map_cons, List.sum_cons, add_assoc]

theorem shiftAlong_of_le
    {column shifted : Int} {todo : List Edit}
    (hraw : ∀ edit ∈ todo, edit.token.raw ≠ [])
    (htodo : ∀ edit ∈ todo, column ≤ edit.token.payloadColumn) :
    shiftAlong column shifted todo = shifted := by
  cases todo with
  | nil => rfl
  | cons edit todo =>
      have hcolumn := htodo edit List.mem_cons_self
      have hfinish :=
        Token.payloadColumn_lt_payloadFinishColumn (hraw edit List.mem_cons_self)
      simp only [shiftAlong]
      rw [if_neg (by omega), if_neg (by omega)]

/-! ## Order of columns -/

/-- Payloads along a line: none is empty, and each ends before the next one starts. -/
structure Along (edits : List Edit) : Prop where
  pairwise : edits.Pairwise fun edit edit' =>
    edit.token.payloadFinishColumn < edit'.token.payloadColumn
  nonempty : ∀ edit ∈ edits, edit.token.raw ≠ []

theorem Along.tail {edit : Edit} {rest : List Edit} (h : Along (edit :: rest)) :
    Along rest where
  pairwise := (List.pairwise_cons.mp h.pairwise).2
  nonempty := fun edit' hedit' => h.nonempty edit' (List.mem_cons_of_mem edit hedit')

theorem InOrder.along {edits : List Edit} (h : InOrder edits) (line : Int) :
    Along (edits.filter fun edit => edit.token.place.line = line) where
  pairwise := by
    rw [List.pairwise_filter]
    refine h.pairwise.imp ?_
    intro edit edit' hbefore hline hline'
    have hfinish := edit.token.payloadFinishColumn_lt_finishColumn
    have hstart := edit'.token.column_lt_payloadColumn
    simp only [decide_eq_true_eq] at hline hline'
    rcases hbefore with hlt | ⟨-, hle⟩
    · simp only [Token.finishPlace] at hlt
      omega
    · simp only [Token.finishPlace] at hle
      omega
  nonempty := fun edit hedit => h.nonempty edit (List.mem_of_mem_filter hedit)

/-- Edits in order of their tokens are in order along each line. -/
theorem InOrder.alongLine_eq {edits : List Edit} (h : InOrder edits) (line : Int) :
    alongLine edits line = edits.filter fun edit => edit.token.place.line = line := by
  apply List.mergeSort_of_pairwise
  rw [List.pairwise_filter]
  refine h.pairwise.imp ?_
  intro edit edit' hbefore hline hline'
  simp only [decide_eq_true_eq] at hline hline' ⊢
  simp only [Token.Before, Place.Reaches, Token.finishPlace, Token.finishColumn] at hbefore
  omega

/-- A column that lies behind some payloads of its line and before all others moves by
what the edits of the former add. -/
theorem shift_append
    {done todo : List Edit} (h : InOrder (done ++ todo)) {line column : Int}
    (hdone : ∀ edit ∈ done, (edit.token.place.line : Int) = line →
      (edit.token.payloadFinishColumn : Int) ≤ column)
    (htodo : ∀ edit ∈ todo, (edit.token.place.line : Int) = line →
      column ≤ edit.token.payloadColumn) :
    shift (done ++ todo) line column = column + lineDelta done line := by
  have hmem {edits : List Edit} {edit : Edit}
      (hedit : edit ∈ edits.filter fun edit => edit.token.place.line = line) :
      edit ∈ edits ∧ (edit.token.place.line : Int) = line := by
    simpa using hedit
  unfold shift lineDelta
  rw [h.alongLine_eq, List.filter_append, shiftAlong_append, shiftAlong_of_le]
  · exact fun edit hedit => h.nonempty edit (List.mem_append_right _ (hmem hedit).1)
  · exact fun edit hedit => htodo edit (hmem hedit).1 (hmem hedit).2
  · exact fun edit hedit => hdone edit (hmem hedit).1 (hmem hedit).2

theorem delta_eq (edit : Edit) :
    edit.delta = edit.text.length -
      ((edit.token.payloadFinishColumn : Int) - edit.token.payloadColumn) := by
  simp only [delta, Token.payloadFinishColumn]
  omega

theorem Along.shiftAlong_finish
    {edit : Edit} {rest : List Edit} (h : Along (edit :: rest)) (shifted : Int) :
    shiftAlong edit.token.payloadFinishColumn shifted rest = shifted := by
  apply shiftAlong_of_le h.tail.nonempty
  intro edit' hedit'
  have hlt := (List.pairwise_cons.mp h.pairwise).1 edit' hedit'
  omega

theorem Along.shiftAlong_le
    {edits : List Edit} (h : Along edits) {column column' : Int} (hle : column ≤ column')
    (moved : Int) :
    shiftAlong column (column + moved) edits ≤
      shiftAlong column' (column' + moved) edits := by
  induction edits generalizing column column' moved with
  | nil => simpa [shiftAlong] using hle
  | cons edit rest ih =>
      have hraw :=
        Token.payloadColumn_lt_payloadFinishColumn (h.nonempty edit List.mem_cons_self)
      have hdelta := edit.delta_eq
      have hrest := h.shiftAlong_finish
      simp only [shiftAlong, add_assoc]
      by_cases hcolumn : (edit.token.payloadFinishColumn : Int) ≤ column
      · have hcolumn' : (edit.token.payloadFinishColumn : Int) ≤ column' := hcolumn.trans hle
        rw [if_pos hcolumn, if_pos hcolumn']
        exact ih h.tail hle _
      · rw [if_neg hcolumn]
        by_cases hcolumn' : (edit.token.payloadFinishColumn : Int) ≤ column'
        -- The edit ends between the columns: compare with the column where it ends.
        · have htail := ih h.tail hcolumn' (moved + edit.delta)
          rw [hrest] at htail
          rw [if_pos hcolumn']
          split <;> omega
        · rw [if_neg hcolumn']
          split <;> split <;> omega

theorem Along.shiftAlong_lt
    {edits : List Edit} (h : Along edits) (htext : ∀ edit ∈ edits, edit.text ≠ [])
    {column column' : Int} (hlt : column < column')
    (houtside : ∀ edit ∈ edits, ¬((edit.token.payloadColumn : Int) < column ∧
      column < edit.token.payloadFinishColumn))
    (moved : Int) :
    shiftAlong column (column + moved) edits <
      shiftAlong column' (column' + moved) edits := by
  induction edits generalizing column column' moved with
  | nil => simpa [shiftAlong] using hlt
  | cons edit rest ih =>
      have hraw :=
        Token.payloadColumn_lt_payloadFinishColumn (h.nonempty edit List.mem_cons_self)
      have hlength := List.length_pos_iff.mpr (htext edit List.mem_cons_self)
      have hdelta := edit.delta_eq
      have houtsideEdit := houtside edit List.mem_cons_self
      simp only [shiftAlong, add_assoc]
      by_cases hcolumn : (edit.token.payloadFinishColumn : Int) ≤ column
      · have hcolumn' : (edit.token.payloadFinishColumn : Int) ≤ column' :=
          hcolumn.trans hlt.le
        rw [if_pos hcolumn, if_pos hcolumn']
        exact ih h.tail (fun edit' hedit' => htext edit' (List.mem_cons_of_mem edit hedit'))
          hlt (fun edit' hedit' => houtside edit' (List.mem_cons_of_mem edit hedit')) _
      · have hstart : ¬(edit.token.payloadColumn : Int) < column := by omega
        rw [if_neg hcolumn, if_neg hstart]
        by_cases hcolumn' : (edit.token.payloadFinishColumn : Int) ≤ column'
        · have htail := h.tail.shiftAlong_le hcolumn' (moved + edit.delta)
          rw [h.shiftAlong_finish] at htail
          rw [if_pos hcolumn']
          omega
        · rw [if_neg hcolumn']
          split <;> omega

/-- Whether a column of a line is inside the payload of an edit, behind the payload's first
character. -/
def Inside (edits : List Edit) (line column : Int) : Prop :=
  ∃ edit ∈ edits, (edit.token.place.line : Int) = line ∧
    (edit.token.payloadColumn : Int) < column ∧ column < edit.token.payloadFinishColumn

instance (edits : List Edit) (line column : Int) : Decidable (Inside edits line column) :=
  inferInstanceAs (Decidable (∃ edit ∈ edits, (edit.token.place.line : Int) = line ∧
    (edit.token.payloadColumn : Int) < column ∧ column < edit.token.payloadFinishColumn))

section Order

variable {edits : List Edit} {line column column' : Int}

theorem shift_le_shift (h : InOrder edits) (line : Int) (hle : column ≤ column') :
    shift edits line column ≤ shift edits line column' := by
  unfold shift
  rw [h.alongLine_eq]
  simpa using (h.along line).shiftAlong_le hle 0

theorem shift_lt_shift
    (h : InOrder edits) (htext : ∀ edit ∈ edits, edit.text ≠ [])
    (houtside : ¬Inside edits line column) (hlt : column < column') :
    shift edits line column < shift edits line column' := by
  have hmoved := (h.along line).shiftAlong_lt
    (fun edit hedit => htext edit (List.mem_of_mem_filter hedit)) hlt
    (fun edit hedit hinside => houtside
      ⟨edit, List.mem_of_mem_filter hedit, by simpa using (List.mem_filter.mp hedit).2,
        hinside⟩) 0
  unfold shift
  rw [h.alongLine_eq]
  simpa using hmoved

theorem InOrder.before_or
    (h : InOrder edits) {edit edit' : Edit} (hedit : edit ∈ edits) (hedit' : edit' ∈ edits) :
    edit = edit' ∨ edit.token.Before edit'.token ∨ edit'.token.Before edit.token := by
  have hforward : edits.Pairwise fun edit edit' =>
      edit = edit' ∨ edit.token.Before edit'.token ∨ edit'.token.Before edit.token :=
    h.pairwise.imp fun hbefore => .inr (.inl hbefore)
  have hbackward : edits.Pairwise (flip fun edit edit' =>
      edit = edit' ∨ edit.token.Before edit'.token ∨ edit'.token.Before edit.token) :=
    h.pairwise.imp fun hbefore => .inr (.inr hbefore)
  exact hforward.forall_of_forall_of_flip (fun _ _ => .inl rfl) hbackward hedit hedit'

theorem mem_alongLine {edit : Edit} :
    edit ∈ alongLine edits line ↔ edit ∈ edits ∧ (edit.token.place.line : Int) = line := by
  simp [alongLine]

theorem pairwise_alongLine (edits : List Edit) (line : Int) :
    (alongLine edits line).Pairwise fun edit edit' =>
      decide (edit.token.place.column ≤ edit'.token.place.column) = true := by
  apply List.pairwise_mergeSort
  · simp only [decide_eq_true_eq]
    omega
  · simp only [Bool.or_eq_true, decide_eq_true_eq]
    omega

/-- The order in which edits are given does not matter for columns. -/
theorem shift_eq_of_perm
    {edits' : List Edit} (h : InOrder edits) (hperm : edits'.Perm edits) (line column : Int) :
    shift edits' line column = shift edits line column := by
  have hsame : alongLine edits' line = alongLine edits line := by
    refine List.Perm.eq_of_pairwise ?_ (pairwise_alongLine edits' line)
      (pairwise_alongLine edits line) ?_
    · intro edit edit' hedit hedit' hle hle'
      obtain ⟨hedit, hline⟩ := mem_alongLine.mp hedit
      obtain ⟨hedit', hline'⟩ := mem_alongLine.mp hedit'
      simp only [decide_eq_true_eq] at hle hle'
      have hfinish := edit.token.column_lt_finishColumn
      have hfinish' := edit'.token.column_lt_finishColumn
      -- Of two tokens one ends, behind its own start, before the other starts.
      rcases h.before_or (hperm.mem_iff.mp hedit) hedit' with rfl | hbefore | hbehind
      · rfl
      · simp only [Token.Before, Place.Reaches, Token.finishPlace] at hbefore
        omega
      · simp only [Token.Before, Place.Reaches, Token.finishPlace] at hbehind
        omega
    · exact (List.mergeSort_perm _ _).trans
        ((hperm.filter _).trans (List.mergeSort_perm _ _).symm)
  unfold shift
  rw [hsame]

end Order

end Edit

end UrlRebase
