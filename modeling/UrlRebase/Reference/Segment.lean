import UrlRebase.Reference.Reading
import UrlRebase.Text.Word

/-!
# Segments of a stylesheet

A stylesheet falls into comments, strings, references and single other characters, read
from left to right.  A comment runs to its `*/` or to the end, a string to the matching
quote, to a newline or to the end, and a reference is a `url(`, in any letter case and
not the tail of a longer identifier, that `Reading.read?` accepts.  A `url(` that it
does not accept is passed over by its four characters only.

The main statement is `flatMap_written`: the segments of a text, written one after the
other, are the text.
-/

namespace UrlRebase

/-- A piece of a stylesheet as the left-to-right segmentation cuts it. -/
inductive Segment where
  /-- A character outside any construct. -/
  | plain (c : CodePoint)
  /-- A `url(` that starts no reference. -/
  | malformed (opening : Text)
  /-- A comment with its delimiters. -/
  | comment (written : Text)
  /-- A string with its quotes. -/
  | string (written : Text)
  /-- A reference: the letters `url` and the parenthesis as written, and what follows. -/
  | reference (opening : Text) (reading : Reading)
deriving DecidableEq, Repr

namespace Segment

def written : Segment → Text
  | .plain c => [c]
  | .malformed opening => opening
  | .comment written => written
  | .string written => written
  | .reference opening reading => opening ++ reading.written

/-- The part of a comment's inside up to its end mark. -/
def commentBody : Text → Text
  | [] => []
  | '*' :: '/' :: _ => ['*', '/']
  | c :: rest => c :: commentBody rest

/-- The part of a string behind its opening quote.  A backslash takes the next character
with it, whatever that is; a newline that is not so taken ends the string. -/
def stringBody (quote : CodePoint) : Text → Text
  | [] => []
  | '\\' :: [] => ['\\']
  | '\\' :: c :: rest => '\\' :: c :: stringBody quote rest
  | c :: rest => if c = quote ∨ c = '\n' then [c] else c :: stringBody quote rest

theorem commentBody_append_drop (text : Text) :
    commentBody text ++ text.drop (commentBody text).length = text := by
  fun_induction commentBody text with
  | case1 => rfl
  | case2 => rfl
  | case3 c rest _ ih => simpa using ih

theorem stringBody_append_drop (quote : CodePoint) (text : Text) :
    stringBody quote text ++ text.drop (stringBody quote text).length = text := by
  fun_induction stringBody quote text with
  | case1 => rfl
  | case2 => rfl
  | case3 c rest ih => simpa using ih
  | case4 => rfl
  | case5 c rest _ _ _ ih => simpa using ih

/-- The letters `url` in any case and the parenthesis, if a text starts with them. -/
def opening? (text : Text) : Option Text :=
  match text with
  | u :: r :: l :: '(' :: _ =>
      if (u = 'u' ∨ u = 'U') ∧ (r = 'r' ∨ r = 'R') ∧ (l = 'l' ∨ l = 'L') then
        some [u, r, l, '(']
      else none
  | _ => none

theorem opening?_append_drop {text opening : Text} (h : opening? text = some opening) :
    opening ++ text.drop opening.length = text ∧ opening ≠ [] := by
  unfold opening? at h
  split at h
  · split at h
    · obtain rfl := Option.some.inj h
      simp
    · simp at h
  · simp at h

def continuesName (previous : Option CodePoint) : Bool :=
  match previous with
  | none => false
  | some c => Text.isWord c || c = '-'

/-- The first segment of a text that starts with `c`, behind the character `previous`. -/
def first (previous : Option CodePoint) (c : CodePoint) (rest : Text) : Segment :=
  if c = '/' ∧ rest.head? = some (.char '*') then
    .comment ('/' :: '*' :: commentBody rest.tail)
  else if c = '\'' ∨ c = '"' then
    .string (c :: stringBody c rest)
  else
    match opening? (c :: rest) with
    | none => .plain c
    | some opening =>
        if continuesName previous then .plain c
        else
          match Reading.read? ((c :: rest).drop opening.length) with
          | none => .malformed opening
          | some (reading, _) => .reference opening reading

theorem written_first (previous : Option CodePoint) (c : CodePoint) (rest : Text) :
    (first previous c rest).written ++
        (c :: rest).drop (first previous c rest).written.length = c :: rest ∧
      (first previous c rest).written ≠ [] := by
  unfold first
  split
  · rename_i hcomment
    obtain ⟨rfl, hstar⟩ := hcomment
    cases rest with
    | nil => simp at hstar
    | cons star rest =>
        obtain rfl : star = '*' := by simpa using hstar
        simpa [written] using commentBody_append_drop rest
  · split
    · simpa [written] using stringBody_append_drop c rest
    · split
      · simp [written]
      · rename_i opening hopening
        obtain ⟨hdrop, hne⟩ := opening?_append_drop hopening
        split
        · simp [written]
        · split
          · exact ⟨hdrop, hne⟩
          · rename_i reading behind hread
            have hbehind := Reading.read?_written hread
            refine ⟨?_, by simp [written, hne]⟩
            simp only [written, List.length_append]
            rw [← List.drop_drop, hbehind, List.drop_left, List.append_assoc, ← hbehind]
            exact hdrop

/-- The segments of a text behind the character `previous`. -/
def split (previous : Option CodePoint) : Text → List Segment
  | [] => []
  | c :: rest =>
      let segment := first previous c rest
      segment :: split segment.written.getLast? ((c :: rest).drop segment.written.length)
termination_by text => text.length
decreasing_by
  have hne := (written_first previous c rest).2
  have hpos := List.length_pos_iff.2 hne
  simp only [List.length_drop, List.length_cons]
  omega

theorem flatMap_written (previous : Option CodePoint) (text : Text) :
    (split previous text).flatMap written = text := by
  fun_induction split previous text with
  | case1 => rfl
  | case2 previous c rest segment ih =>
      rw [List.flatMap_cons, ih]
      exact (written_first previous c rest).1

end Segment

end UrlRebase
