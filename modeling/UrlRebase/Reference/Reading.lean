import UrlRebase.Reference.Escape

/-!
# Readings of a `url()`

Behind the opening parenthesis of a `url(` comes the construct that `read?` recognises:
blanks, the payload with or without quotation marks around it, blanks, and the closing
parenthesis.  The payload is a sequence of units, each an ordinary character or a whole
escape.  A line break ends every attempt, so a reading never leaves its line, and a
payload is never empty.

A reading keeps the blanks that it passed, hence it knows its own text (`written`), and
the offsets inside it are lengths of its parts.
-/

namespace UrlRebase

def isBlank (c : CodePoint) : Bool :=
  c = ' ' || c = '\t' || c = '\x0c'

def isBreak (c : CodePoint) : Bool :=
  c = '\r' || c = '\n'

namespace Escape

/-- What an escape takes behind its backslash: a hexadecimal number of at most six digits
and one blank, or any one character but a line break. -/
def body? : Text → Option Text
  | [] => none
  | c :: rest =>
      if isBreak c then none
      else if Text.isHex c then
        let digits := hexDigits (c :: rest)
        some (digits ++ optional isBlank ((c :: rest).drop digits.length))
      else some [c]

theorem body?_append_drop {text body : Text} (h : body? text = some body) :
    body ++ text.drop body.length = text := by
  cases text with
  | nil => simp [body?] at h
  | cons c rest =>
      simp only [body?] at h
      split at h
      · simp at h
      · split at h
        · obtain rfl := Option.some.inj h
          rw [List.length_append, ← List.drop_drop, List.append_assoc,
            optional_append_drop, hexDigits_append_drop]
        · obtain rfl := Option.some.inj h
          simp

end Escape

/-- What stands between the opening and the closing parenthesis of a reference. -/
structure Reading where
  /-- The blanks before the payload. -/
  leading : Text
  /-- The quotation mark around the payload. -/
  quote : Quote
  /-- The payload as it is written. -/
  raw : Text
  /-- The blanks behind the payload. -/
  trailing : Text
deriving DecidableEq, Repr

namespace Reading

def written (reading : Reading) : Text :=
  reading.leading ++ reading.quote.mark ++ reading.raw ++ reading.quote.mark ++
    reading.trailing ++ ")".text

/-- The distance from the opening parenthesis to the payload. -/
def lead (reading : Reading) : Nat :=
  reading.leading.length + reading.quote.mark.length

/-- The units at the head of a text and the rest.  The units end before the first
character that is neither ordinary nor the start of an escape. -/
def units (isOrdinary : CodePoint → Bool) : Text → Text × Text
  | [] => ([], [])
  | c :: rest =>
      if c = '\\' then
        match Escape.body? rest with
        | none => ([], c :: rest)
        | some body =>
            let (taken, behind) := units isOrdinary (rest.drop body.length)
            (c :: body ++ taken, behind)
      else if isOrdinary c then
        let (taken, behind) := units isOrdinary rest
        (c :: taken, behind)
      else ([], c :: rest)
termination_by text => text.length
decreasing_by
  all_goals simp only [List.length_drop, List.length_cons]
  all_goals omega

/-- Whether a character stands for itself in a payload with the given quote. -/
def isOrdinary (quote : Quote) (c : CodePoint) : Bool :=
  match quote with
  | .none =>
      !(c = '\\' || isBlank c || isBreak c || c = '\'' || c = '"' || c = '(' || c = ')')
  | .single => !(c = '\\' || isBreak c || c = '\'')
  | .double => !(c = '\\' || isBreak c || c = '"')

/-- Reads the closing mark, blanks and parenthesis behind a payload. -/
def close? (leading : Text) (quote : Quote) (raw : Text) (behind : Text) :
    Option (Reading × Text) :=
  let mark := quote.mark
  if raw ≠ [] ∧ mark.isPrefixOf behind then
    let behind := behind.drop mark.length
    let trailing := behind.takeWhile isBlank
    match behind.dropWhile isBlank with
    | ')' :: rest => some (⟨leading, quote, raw, trailing⟩, rest)
    | _ => none
  else none

/-- Reads the construct behind a `url(` and gives what is left of the text behind it. -/
def read? (text : Text) : Option (Reading × Text) :=
  let leading := text.takeWhile isBlank
  match text.dropWhile isBlank with
  | [] => none
  | c :: rest =>
      match Quote.ofChar? c with
      | some quote =>
          let (raw, behind) := units (isOrdinary quote) rest
          close? leading quote raw behind
      | none =>
          let (raw, behind) := units (isOrdinary .none) (c :: rest)
          close? leading .none raw behind

theorem close?_written {leading raw behind rest : Text} {quote : Quote} {reading : Reading}
    (h : close? leading quote raw behind = some (reading, rest)) :
    leading ++ quote.mark ++ raw ++ behind = reading.written ++ rest := by
  unfold close? at h
  simp only at h
  split at h
  · rename_i hmark
    split at h
    · rename_i tail htail
      obtain ⟨rfl, rfl⟩ := Prod.mk.inj (Option.some.inj h)
      obtain ⟨after, rfl⟩ := List.isPrefixOf_iff_prefix.1 hmark.2
      rw [List.drop_left] at htail
      have hsplit := List.takeWhile_append_dropWhile (p := isBlank) (l := after)
      rw [htail] at hsplit
      simp only [written, List.drop_left, List.append_assoc]
      congr 4
      simpa [String.text, Text.ofChars] using hsplit.symm
    · simp at h
  · simp at h

theorem units_append (isOrdinary : CodePoint → Bool) (text : Text) :
    (units isOrdinary text).1 ++ (units isOrdinary text).2 = text := by
  fun_induction units isOrdinary text with
  | case1 => rfl
  | case2 => rfl
  | case3 rest body hbody taken behind hunits ih =>
      rw [hunits] at ih
      simp only [List.cons_append, List.append_assoc] at ih ⊢
      rw [ih, Escape.body?_append_drop hbody]
  | case4 c rest hc hord taken behind hunits ih =>
      rw [hunits] at ih
      simpa using ih
  | case5 => rfl

/-- A reading and the text behind it make up the text that was read. -/
theorem read?_written {text rest : Text} {reading : Reading}
    (h : read? text = some (reading, rest)) :
    text = reading.written ++ rest := by
  have hblank := List.takeWhile_append_dropWhile (p := isBlank) (l := text)
  unfold read? at h
  simp only at h
  split at h
  · simp at h
  · rename_i c behind hbehind
    rw [hbehind] at hblank
    split at h
    · rename_i quote hquote
      have hmark : quote.mark = [c] := by
        unfold Quote.ofChar? at hquote
        split at hquote
        · obtain rfl := Option.some.inj hquote
          simp [Quote.mark, *]
        · split at hquote
          · obtain rfl := Option.some.inj hquote
            simp [Quote.mark, *]
          · simp at hquote
      rw [← close?_written h, List.append_assoc, units_append, hmark]
      simpa using hblank.symm
    · rw [← close?_written h]
      simp only [Quote.mark, List.append_nil, List.append_assoc, units_append]
      exact hblank.symm

end Reading

end UrlRebase
