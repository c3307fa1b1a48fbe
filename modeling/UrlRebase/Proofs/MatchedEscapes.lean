import UrlRebase.Proofs.EscapedCharacters
import UrlRebase.Proofs.RewordedSegments
import UrlRebase.Proofs.TokenSpans

/-!
# Escapes as the scanner and the decoder find them

The scanner cuts a payload into characters and escapes while it reads a text, in which something
follows the payload.  The decoder looks for escapes in the payload alone, by a pattern of its own:
a backslash with up to six digits and a blank or a newline behind it, or with any one character.
Both find the same pieces in every payload.  No payload has a newline in it, and what closes a
payload is no digit and no blank that an escape at its end would have taken.
-/

namespace UrlRebase

namespace Escape

/-- What the pattern of an escape matches behind a backslash. -/
def matched? : Text → Option Text
  | [] => none
  | c :: rest =>
      if Text.isHex c then
        let digits := hexDigits (c :: rest)
        some (digits ++ optional isTerminator ((c :: rest).drop digits.length))
      else some [c]

/-- A piece of a payload: a character, or an escape with what it takes behind its backslash. -/
inductive Piece where
  | ordinary (c : CodePoint)
  | escape (body : Text)
deriving DecidableEq, Repr

namespace Piece

def written : Piece → Text
  | .ordinary c => [c]
  | .escape body => '\\' :: body

/-- The character that a piece stands for. -/
def decoded : Piece → CodePoint
  | .ordinary c => c
  | .escape body =>
      match hexDigits body with
      | [] => body.headD '\\'
      | digits => codePoint (Text.hexNumber digits)

/-- The matches of the pattern in a text, and the characters between them. -/
def matchesIn : Text → List Piece
  | [] => []
  | c :: rest =>
      if c = '\\' then
        match matched? rest with
        | none => .ordinary c :: matchesIn rest
        | some body => .escape body :: matchesIn (rest.drop body.length)
      else .ordinary c :: matchesIn rest
termination_by text => text.length
decreasing_by
  all_goals simp only [List.length_drop, List.length_cons]
  all_goals omega

/-- The pieces of which the scanner makes up the given number of characters at the head of a
text.  How far an escape goes is read in the whole text. -/
def read? : Nat → Text → Option (List Piece)
  | 0, _ => some []
  | _ + 1, [] => none
  | length + 1, c :: rest =>
      if c = '\\' then
        match body? rest with
        | none => none
        | some body =>
            if body.length ≤ length then
              (read? (length - body.length) (rest.drop body.length)).map (.escape body :: ·)
            else none
      else (read? length rest).map (.ordinary c :: ·)
termination_by length => length
decreasing_by
  all_goals omega

end Piece

/-! ## The pattern -/

theorem hexDigits_append_optional (text : Text) :
    hexDigits (hexDigits text ++
        optional isTerminator (text.drop (hexDigits text).length)) = hexDigits text := by
  have hself : hexDigits (hexDigits text ++ text.drop (hexDigits text).length) =
      hexDigits text := by
    rw [hexDigits_append_drop]
  cases hbehind : text.drop (hexDigits text).length with
  | nil =>
      rw [hbehind] at hself
      exact hself
  | cons c rest =>
      rw [hbehind] at hself
      cases hc : isTerminator c with
      | true =>
          have hoptional : optional isTerminator (c :: rest) = [c] := by simp [optional, hc]
          rw [hoptional]
          exact hexDigits_append_of_head? hself rfl
      | false =>
          have hoptional : optional isTerminator (c :: rest) = [] := by simp [optional, hc]
          rw [hoptional, List.append_nil]
          exact hexDigits_self hself

theorem hexDigits_cons_eq_nil {c : CodePoint} {rest : Text} (hc : Text.isHex c = false) :
    hexDigits (c :: rest) = [] := by
  simp [hexDigits, hc]

theorem hexDigits_cons_ne_nil {c : CodePoint} {rest : Text} (hc : Text.isHex c = true) :
    hexDigits (c :: rest) ≠ [] := by
  simp [hexDigits, hc]

theorem matched?_append_drop {text body : Text} (h : matched? text = some body) :
    body ++ text.drop body.length = text := by
  cases text with
  | nil => cases h
  | cons c rest =>
      simp only [matched?] at h
      split at h
      · obtain rfl := Option.some.inj h
        rw [List.length_append, ← List.drop_drop, List.append_assoc, optional_append_drop,
          hexDigits_append_drop]
      · obtain rfl := Option.some.inj h
        rfl

namespace Piece

theorem matchesIn_cons_of_ne {c : CodePoint} (hc : c ≠ '\\') (rest : Text) :
    matchesIn (c :: rest) = .ordinary c :: matchesIn rest := by
  rw [matchesIn, if_neg hc]

theorem matchesIn_escape {text body : Text} (h : matched? text = some body) :
    matchesIn ('\\' :: text) = .escape body :: matchesIn (text.drop body.length) := by
  rw [matchesIn, if_pos rfl, h]

theorem flatMap_written_matchesIn (text : Text) : (matchesIn text).flatMap written = text := by
  fun_induction matchesIn text with
  | case1 => rfl
  | case2 rest hnone ih => rw [List.flatMap_cons, ih]; rfl
  | case3 rest body hbody ih =>
      rw [List.flatMap_cons, ih, written, List.cons_append, matched?_append_drop hbody]
  | case4 c rest hc ih => rw [List.flatMap_cons, ih]; rfl

theorem decoded_escape_of_hex {text : Text} (hdigits : hexDigits text ≠ []) :
    decoded (.escape (hexDigits text ++
        optional isTerminator (text.drop (hexDigits text).length))) =
      codePoint (Text.hexNumber (hexDigits text)) := by
  rw [decoded, hexDigits_append_optional]
  split
  · rename_i hnil
    exact absurd hnil hdigits
  · rfl

theorem decoded_escape_of_not_hex {c : CodePoint} (hc : Text.isHex c = false) :
    decoded (.escape [c]) = c := by
  rw [decoded, hexDigits_cons_eq_nil hc]
  rfl

/-- Decoding replaces each match of the pattern by the character that it stands for. -/
theorem map_decoded_matchesIn (text : Text) : (matchesIn text).map decoded = unescape text := by
  fun_induction unescape text with
  | case1 => rw [matchesIn]; rfl
  | case2 => rw [matchesIn, if_pos rfl, matched?, matchesIn]; rfl
  | case3 c rest hc digits behind ih =>
      have hmatched : matched? (c :: rest) =
          some (digits ++ optional isTerminator behind) := by
        rw [matched?, if_pos hc]
      have hdrop : (c :: rest).drop (digits ++ optional isTerminator behind).length =
          behind.drop (optional isTerminator behind).length := by
        rw [List.length_append, ← List.drop_drop]
      rw [matchesIn_escape hmatched, List.map_cons, hdrop, ih,
        decoded_escape_of_hex (hexDigits_cons_ne_nil hc)]
  | case4 c rest hc ih =>
      have hnot := Bool.eq_false_of_not_eq_true hc
      have hmatched : matched? (c :: rest) = some [c] := by
        rw [matched?, if_neg hc]
      rw [matchesIn_escape hmatched, List.map_cons, decoded_escape_of_not_hex hnot]
      exact congrArg (c :: ·) ih
  | case5 c rest hlast hescape ih =>
      have hc := Segment.ne_backslash_of_cases hlast hescape
      rw [matchesIn_cons_of_ne hc, List.map_cons, ih]
      rfl

end Piece

/-! ## The pattern and the scanner -/

/-- The two ways to read an escape differ only where a newline stands behind digits. -/
theorem matched?_of_body?
    {text body : Text} (hbody : body? text = some body)
    (hbreak : (text.drop body.length).head? ≠ some (.char '\n')) : matched? text = some body := by
  obtain ⟨c, rest, rfl, -, ⟨hhex, rfl⟩ | ⟨hhex, hsplit⟩⟩ := body?_eq_some_iff.mp hbody
  · rw [matched?, if_neg (by simp [hhex])]
  · rw [matched?, if_pos hhex, hsplit]
    rw [hsplit, List.length_append, ← List.drop_drop] at hbreak
    generalize hbehind : (c :: rest).drop (hexDigits (c :: rest)).length = behind at hbreak ⊢
    have hhead : behind.head? ≠ some (.char '\n') := by
      cases behind with
      | nil => simp
      | cons d behind =>
          rintro hd
          obtain rfl : d = '\n' := by simpa using hd
          exact hbreak rfl
    simp only [hbehind, optional_isTerminator hhead]

end Escape

namespace Reading.Spelled

open Escape

variable {quote : Quote} {raw behind : Text}

theorem head?_ne_newline (hraw : Spelled quote behind raw) : raw.head? ≠ some (.char '\n') :=
  hraw.head?_ne_of_not_ordinary (by decide) (by cases quote <;> decide)

/-- A payload is a sequence of units also if nothing follows it. -/
theorem alone (hraw : Spelled quote behind raw) : Spelled quote [] raw := by
  induction hraw with
  | nil => exact .nil
  | ordinary hc hrest ih => exact .ordinary hc ih
  | escape hbody hrest ih =>
      refine .escape ?_ ih
      rw [List.append_nil]
      exact body?_of_append hbody

/-- An escape of a payload is a match of the pattern in the payload alone. -/
theorem matchesIn_escape
    {body rest : Text} (hbody : body? (body ++ (rest ++ behind)) = some body)
    (hrest : Spelled quote behind rest) :
    Piece.matchesIn ('\\' :: (body ++ rest)) = .escape body :: Piece.matchesIn rest := by
  have hmatched : matched? (body ++ rest) = some body := by
    refine matched?_of_body? (body?_of_append hbody) ?_
    rw [List.drop_left]
    exact hrest.head?_ne_newline
  rw [Piece.matchesIn_escape hmatched, List.drop_left]

/-- The scanner finds the matches of the pattern, whatever follows the payload. -/
theorem read?_eq (hraw : Spelled quote behind raw) :
    Piece.read? raw.length (raw ++ behind) = some (Piece.matchesIn raw) := by
  induction hraw with
  | nil => rw [Piece.matchesIn, List.length_nil, Piece.read?]
  | @ordinary c rest hc hrest ih =>
      have hbackslash := (isOrdinary_iff.mp hc).1
      rw [List.cons_append, List.length_cons, Piece.read?, if_neg hbackslash, ih,
        Piece.matchesIn_cons_of_ne hbackslash, Option.map_some]
  | @escape body rest hbody hrest ih =>
      have hlength : (body ++ rest).length - body.length = rest.length := by
        rw [List.length_append, Nat.add_sub_cancel_left]
      rw [List.cons_append, List.append_assoc, List.length_cons, Piece.read?, if_pos rfl, hbody]
      simp only
      rw [if_pos (by rw [List.length_append]; omega), hlength, List.drop_left, ih,
        matchesIn_escape hbody hrest, Option.map_some]

/-- No backslash of a payload is left over between the matches. -/
theorem written_ne_backslash (hraw : Spelled quote behind raw) :
    ∀ piece ∈ Piece.matchesIn raw, piece.written ≠ [.char '\\'] := by
  induction hraw with
  | nil => simp [Piece.matchesIn]
  | @ordinary c rest hc hrest ih =>
      have hbackslash := (isOrdinary_iff.mp hc).1
      rw [Piece.matchesIn_cons_of_ne hbackslash, List.forall_mem_cons]
      exact ⟨by simpa [Piece.written] using hbackslash, ih⟩
  | @escape body rest hbody hrest ih =>
      obtain ⟨c, tail, rfl, -⟩ := body?_shape hbody
      rw [matchesIn_escape hbody hrest, List.forall_mem_cons]
      exact ⟨by simp [Piece.written], ih⟩

end Reading.Spelled

namespace Token

open Escape

/-- Where the payload of a token starts, the text goes on with the payload and what closes it. -/
theorem exists_drop_payloadStart {text : Text} {token : Token} (hmem : token ∈ scan text) :
    ∃ behind, text.drop token.payloadStart =
      token.raw ++ (token.reading.closing ++ behind) := by
  obtain ⟨before, opening, behind, htext, hopening, -, hstart, -⟩ := exists_parts_of_mem_scan hmem
  have hlead : text = (before ++ opening ++ token.reading.leading ++ token.quote.mark) ++
      (token.raw ++ (token.reading.closing ++ behind)) := by
    simp [htext, Reading.written_eq, raw, quote]
  have hlength : token.payloadStart =
      (before ++ opening ++ token.reading.leading ++ token.quote.mark).length := by
    simp only [payloadStart, payloadDistance, Reading.lead, hstart, List.length_append,
      hopening.length_eq, quote]
    omega
  refine ⟨behind, ?_⟩
  rw [hlength]
  nth_rewrite 1 [hlead]
  exact List.drop_left

/-- The scanner, whether it reads a payload in its text or alone, and the pattern, which is looked
for in the payload alone, cut the payload of a token into the same pieces.  The payload decodes
piece by piece, and no piece is a backslash that is left over. -/
theorem pieces_of_mem_scan {text : Text} {token : Token} (hmem : token ∈ scan text) :
    Piece.read? token.raw.length (text.drop token.payloadStart) =
        some (Piece.matchesIn token.raw) ∧
      Piece.read? token.raw.length token.raw = some (Piece.matchesIn token.raw) ∧
      (Piece.matchesIn token.raw).flatMap Piece.written = token.raw ∧
      unescape token.raw = (Piece.matchesIn token.raw).map Piece.decoded ∧
      ∀ piece ∈ Piece.matchesIn token.raw, piece.written ≠ [.char '\\'] := by
  have hreading := wellFormed_of_mem_scan hmem
  have halone := hreading.spelled.alone.read?_eq
  rw [List.append_nil] at halone
  refine ⟨?_, halone, Piece.flatMap_written_matchesIn _, (Piece.map_decoded_matchesIn _).symm,
    hreading.spelled.written_ne_backslash⟩
  obtain ⟨behind, hdrop⟩ := exists_drop_payloadStart hmem
  rw [hdrop]
  exact (hreading.spelled.of_head? (Reading.head?_closing_append _ behind)).read?_eq

/-- The first escape takes six digits, so a seventh stands for itself; the second one takes a
blank at the very end of the payload, behind which the text goes on with another. -/
theorem pieces_of_full_escape :
    ∃ token, token ∈ scan "url(\\0000411\\42  )".text ∧
      Piece.read? token.raw.length ("url(\\0000411\\42  )".text.drop token.payloadStart) =
        some [.escape "000041".text, .ordinary '1', .escape "42 ".text] ∧
      unescape token.raw = "A1B".text := by
  have hscan : scan "url(\\0000411\\42  )".text =
      [⟨0, 0, ⟨0, 0⟩, ⟨[], .none, "\\0000411\\42 ".text, " ".text⟩⟩] := by
    decide +kernel
  have hmem := hscan ▸ List.mem_singleton_self _
  obtain ⟨hread, -, -, hdecoded, -⟩ := pieces_of_mem_scan hmem
  have hpieces : Piece.matchesIn "\\0000411\\42 ".text =
      [.escape "000041".text, .ordinary '1', .escape "42 ".text] := by
    decide +kernel
  refine ⟨_, hmem, hread.trans (congrArg some hpieces), hdecoded.trans ?_⟩
  simp only [raw, hpieces]
  decide +kernel

end Token

end UrlRebase
