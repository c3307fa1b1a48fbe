import Mathlib.Data.List.Chain
import UrlRebase.Proofs.TextsInStep

/-!
# Line ends

The lines of a text may end with a newline alone or with a carriage return before it.  Both
texts have the same tokens as long as no string goes over the end of a line.  A backslash that
stands there takes a newline with it, and the string goes on, but of two characters it takes
the carriage return alone, and the newline ends the string.  So with carriage returns a text is
scanned as if no backslash stood before a newline.
-/

namespace UrlRebase

namespace Text

/-- A text with a carriage return before each newline. -/
def withReturns (text : Text) : Text :=
  text.flatMap fun c : CodePoint => if c = '\n' then [.char '\r', .char '\n'] else [c]

/-- A text with a full stop in place of each backslash before a newline. -/
def withoutLineEscapes : Text → Text
  | [] => []
  | '\\' :: '\n' :: rest => '.' :: '\n' :: withoutLineEscapes rest
  | c :: rest => c :: withoutLineEscapes rest

theorem withReturns_newline (rest : Text) :
    withReturns (.char '\n' :: rest) = .char '\r' :: .char '\n' :: withReturns rest :=
  rfl

theorem withReturns_cons {c : CodePoint} (hc : c ≠ '\n') (rest : Text) :
    withReturns (c :: rest) = c :: withReturns rest := by
  rw [withReturns, List.flatMap_cons, if_neg hc]
  rfl

theorem SameLines.withReturns_cons
    {rest rest' : Text} (h : SameLines (withReturns rest) rest') (c : CodePoint) :
    SameLines (withReturns (c :: rest)) (c :: rest') := by
  by_cases hc : c = '\n'
  · subst hc
    exact @lineEnd [.char '\r'] [] _ _ (by decide) (by decide) h
  · rw [Text.withReturns_cons hc]
    exact .char hc h

theorem sameLines_withReturns (text : Text) : SameLines (withReturns text) text := by
  induction text with
  | nil => exact .nil
  | cons c rest ih => exact ih.withReturns_cons c

theorem sameLines_withoutLineEscapes (text : Text) :
    SameLines (withReturns text) (withoutLineEscapes text) := by
  fun_induction withoutLineEscapes text with
  | case1 => exact .nil
  | case2 rest ih =>
      rw [withReturns_cons (by decide), withReturns_newline]
      exact @SameLines.lineEnd [.char '\\', .char '\r'] [.char '.'] _ _ (by decide) (by decide) ih
  | case3 c rest _ ih => exact ih.withReturns_cons c

/-- Whether no backslash stands right before a newline. -/
def NoLineEscapes (text : Text) : Prop :=
  text.IsChain fun c d : CodePoint => ¬(c = '\\' ∧ d = '\n')

theorem noLineEscapes_cons_iff {c : CodePoint} {rest : Text} :
    NoLineEscapes (c :: rest) ↔
      (c = '\\' → rest.head? ≠ some (.char '\n')) ∧ NoLineEscapes rest := by
  rw [NoLineEscapes, List.isChain_cons]
  refine and_congr_left fun _ => ?_
  constructor
  · exact fun h hc hhead => h _ hhead ⟨hc, rfl⟩
  · rintro h d hhead ⟨hc, rfl⟩
    exact h hc hhead

theorem noLineEscapes_withReturns (text : Text) : NoLineEscapes (withReturns text) := by
  induction text with
  | nil => exact .nil
  | cons c rest ih =>
      by_cases hc : c = '\n'
      · subst hc
        rw [withReturns_newline, noLineEscapes_cons_iff, noLineEscapes_cons_iff]
        exact ⟨fun h => absurd h (by decide), fun h => absurd h (by decide), ih⟩
      · rw [withReturns_cons hc, noLineEscapes_cons_iff]
        refine ⟨fun _ hhead => ?_, ih⟩
        cases rest with
        | nil => cases hhead
        | cons d rest =>
            by_cases hd : d = '\n'
            · subst hd
              exact absurd (Option.some.inj hhead) (by decide)
            · rw [withReturns_cons hd] at hhead
              exact hd (Option.some.inj hhead)

theorem noLineEscapes_withoutLineEscapes (text : Text) :
    NoLineEscapes (withoutLineEscapes text) := by
  fun_induction withoutLineEscapes text with
  | case1 => exact .nil
  | case2 rest ih =>
      rw [noLineEscapes_cons_iff, noLineEscapes_cons_iff]
      exact ⟨fun h => absurd h (by decide), fun h => absurd h (by decide), ih⟩
  | case3 c rest hescape ih =>
      rw [noLineEscapes_cons_iff]
      refine ⟨?_, ih⟩
      rintro rfl hhead
      cases rest with
      | nil => cases hhead
      | cons d rest =>
          have hd : d ≠ '\n' := fun h => hescape rest rfl (h ▸ rfl)
          unfold withoutLineEscapes at hhead
          split at hhead
          · cases hhead
          · exact absurd (Option.some.inj hhead) (by decide)
          · rename_i heq
            obtain ⟨rfl, rfl⟩ := List.cons.inj heq
            exact hd (Option.some.inj hhead)

end Text

open Text

namespace Segment

theorem StringBody.notMem_dropLast
    {quote : CodePoint} {body behind : Text} (h : StringBody quote body behind)
    (hbody : NoLineEscapes body) :
    .char '\n' ∉ body.dropLast := by
  induction h with
  | unclosed => simp
  | dangling => simp
  | closed => simp
  | @escaped c body _ _ ih =>
      rw [noLineEscapes_cons_iff, noLineEscapes_cons_iff] at hbody
      have hc : c ≠ '\n' := fun h => hbody.1 rfl (h ▸ rfl)
      exact notMem_dropLast_cons (by decide) (notMem_dropLast_cons hc (ih hbody.2.2))
  | ordinary _ hc _ ih =>
      rw [noLineEscapes_cons_iff] at hbody
      exact notMem_dropLast_cons (fun h => hc (.inr h)) (ih hbody.2)

theorem stringsOnLines_of_noLineEscapes
    {previous : Option CodePoint} {text : Text} (htext : NoLineEscapes text) :
    StringsOnLines previous text := by
  intro written hmem
  obtain ⟨done, later, hsplit⟩ := List.append_of_mem hmem
  obtain ⟨rest, behind, hrest, hbegins⟩ := (segmentation_iff.mpr hsplit.symm).exists_begins
  generalize hsegment : Segment.string written = segment at hbegins
  cases hbegins with
  | @string quote body behind hquote hbody =>
      obtain rfl := Segment.string.inj hsegment
      have hinside : quote :: body <:+: text :=
        ⟨done.flatMap Segment.written, behind, by rw [hrest, List.append_assoc]; rfl⟩
      have hnone := htext.infix hinside
      have hmark : quote ≠ '\n' := by
        rcases hquote with rfl | rfl <;> decide
      exact notMem_dropLast_cons hmark
        (hbody.notMem_dropLast (noLineEscapes_cons_iff.mp hnone).2)
  | _ => cases hsegment

end Segment

namespace Token

/-- With carriage returns before its newlines a text is scanned as if no backslash stood before
a newline.  It has its own tokens if no string of it goes over the end of a line. -/
theorem scan_withReturns (text : Text) :
    (scan (withReturns text)).map placed = (scan (withoutLineEscapes text)).map placed ∧
      (Segment.StringsOnLines none text →
        (scan (withReturns text)).map placed = (scan text).map placed) := by
  have hreturns := @Segment.stringsOnLines_of_noLineEscapes none _ (noLineEscapes_withReturns text)
  refine ⟨map_placed_scan (sameLines_withoutLineEscapes text) hreturns
    (Segment.stringsOnLines_of_noLineEscapes (noLineEscapes_withoutLineEscapes text)), ?_⟩
  exact fun hline => map_placed_scan (sameLines_withReturns text) hreturns hline

/-- A newline ends the string in both texts, and the backslash in the comment takes nothing. -/
theorem scan_withReturns_of_comment :
    Segment.StringsOnLines none "'a\n/*\\\n*/url(b)".text ∧
      (scan (withReturns "'a\n/*\\\n*/url(b)".text)).map placed =
        (scan "'a\n/*\\\n*/url(b)".text).map placed ∧
      (scan "'a\n/*\\\n*/url(b)".text).map Token.place = [⟨2, 2⟩] := by
  have hsplit : Segment.split none "'a\n/*\\\n*/url(b)".text =
      [.string "'a\n".text, .comment "/*\\\n*/".text,
        .reference "url(".text ⟨[], .none, "b".text, []⟩] := by
    decide +kernel
  have hline : Segment.StringsOnLines none "'a\n/*\\\n*/url(b)".text := by
    intro written hmem
    obtain rfl : written = "'a\n".text := by simpa [hsplit] using hmem
    decide
  exact ⟨hline, (scan_withReturns _).2 hline, by decide +kernel⟩

/-- A backslash before a newline keeps a reference in a string, and before a carriage return it
does not. -/
theorem exists_uncovered_reference :
    scan "\"a\\\nurl(b.png)\"".text = [] ∧
      (scan (withReturns "\"a\\\nurl(b.png)\"".text)).map placed =
        [(0, ⟨1, 0⟩, 10, ⟨[], .none, "b.png".text, []⟩)] :=
  ⟨by decide +kernel, by decide +kernel⟩

end Token

end UrlRebase
