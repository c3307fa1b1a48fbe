import UrlRebase.Proofs.BlindPacking
import UrlRebase.Proofs.BuiltSheets
import UrlRebase.Proofs.RelocatedMaps
import UrlRebase.Proofs.TokenSpans

/-!
# Parts of assets

An asset is built of parts: the texts of the drafts with the separator behind each but the
last, and their maps beside the output.  If the separator ends a line, each text starts a
line of its own, where it has the places that it has alone, moved down, and no text has
mappings on lines of the texts behind it.
-/

namespace UrlRebase

/-! ## Places in joined texts -/

namespace Place

def position (place : Place) : Position :=
  ⟨place.line, place.column⟩

/-- Lines above a text only move its places down. -/
theorem after_down (lines : Nat) (place : Place) (text : Text) :
    (⟨place.line + lines, place.column⟩ : Place).after text =
      ⟨(place.after text).line + lines, (place.after text).column⟩ := by
  induction text generalizing place with
  | nil => rfl
  | cons c text ih =>
      rw [after_cons, after_cons, ← ih]
      congr 1
      unfold step
      split
      · rw [Nat.add_right_comm]
      · rfl

theorem after_concat_newline (place : Place) (text : Text) :
    (place.after (text ++ [.char '\n'])).column = 0 := by
  rw [after_append]
  rfl

end Place

/-- Whether a text is empty or ends a line. -/
def Text.EndsLine (text : Text) : Prop :=
  text = [] ∨ ∃ line, text = line ++ [.char '\n']

namespace Text

theorem EndsLine.start_after {text : Text} (h : text.EndsLine) :
    Place.start.after text = ⟨text.count (.char '\n'), 0⟩ := by
  have hline : (Place.start.after text).line = text.count (.char '\n') :=
    (Place.line_after Place.start text).trans (Nat.zero_add _)
  have hcolumn : (Place.start.after text).column = 0 := by
    rcases h with rfl | ⟨line, rfl⟩
    · rfl
    · exact Place.after_concat_newline Place.start line
  calc Place.start.after text
      = ⟨(Place.start.after text).line, (Place.start.after text).column⟩ := rfl
    _ = ⟨text.count (.char '\n'), 0⟩ := by rw [hline, hcolumn]

theorem line_placeOf_le {text : Text} {offset : Nat} (h : offset ≤ text.length) :
    (text.placeOf offset).line ≤ text.count (.char '\n') := by
  rw [placeOf_of_le h, Place.line_after, Place.start, Nat.zero_add]
  exact (text.take_sublist offset).count_le (.char '\n')

theorem position_placeOf_zero (text : Text) : (text.placeOf 0).position = ⟨0, 0⟩ := by
  rw [placeOf_of_le (Nat.zero_le _), List.take_zero]
  rfl

/-- Behind whole lines a text has the places that it has alone, moved down. -/
theorem placeOf_append_append
    {before : Text} (h : before.EndsLine) (text behind : Text) {offset : Nat}
    (hoffset : offset ≤ text.length) :
    (before ++ text ++ behind).placeOf (before.length + offset) =
      ⟨(text.placeOf offset).line + before.count (.char '\n'), (text.placeOf offset).column⟩ := by
  have htake : (before ++ text ++ behind).take (before.length + offset) =
      before ++ text.take offset := by
    rw [List.append_assoc, List.take_append, List.take_of_length_le (by omega),
      Nat.add_sub_cancel_left, List.take_append_of_le_length hoffset]
  rw [placeOf_of_le (by simp; omega), placeOf_of_le hoffset, htake, Place.after_append,
    h.start_after, ← Place.after_down]
  rw [Place.start, Nat.zero_add]

theorem EndsLine.flatten {texts : List Text}
    (h : ∀ text ∈ texts, ∃ line, text = line ++ [.char '\n']) : EndsLine texts.flatten := by
  rcases List.eq_nil_or_concat' texts with rfl | ⟨front, last, rfl⟩
  · exact .inl rfl
  · obtain ⟨line, rfl⟩ := h last (List.mem_append_right front (List.mem_singleton_self last))
    right
    refine ⟨front.flatten ++ line, ?_⟩
    rw [List.flatten_append, List.flatten_singleton, List.append_assoc]

end Text

namespace Packer

open Work SourceMap

variable {packer : Packer}

/-! ## Parts of assets -/

/-- Whether texts with parts of a map are what drafts of inputs are built to: the texts of the
drafts, with the separator behind each but the last, and their maps beside the output. -/
inductive Built (current separator output : Text) :
    List (Input × Draft) → List (Text × Part) → Prop
  | nil : Built current separator output [] []
  | cons {input : Input} {draft : Draft} {rest : List (Input × Draft)} {text : Text}
      {map : Option SourceMap} {built : List (Text × Part)}
      (htext : text = draft.text ++ if rest = [] then [] else separator)
      (hmap : mapBeside current input.path output draft.map = .ok map)
      (tail : Built current separator output rest built) :
      Built current separator output ((input, draft) :: rest)
        ((text, ⟨text.count (.char '\n'), map⟩) :: built)

section Built

variable {current separator output : Text} {pairs front behind : List (Input × Draft)}
  {built : List (Text × Part)} {input : Input} {draft : Draft}

/-- Inputs whose drafts have maps that can be joined are built as the drafts are. -/
theorem runs_buildParts
    {separator : Setting} {inputs : List Input} {drafts : List Draft} {before after : Workspace}
    (hprocess : Runs (inputs.mapM packer.process) before (.ok drafts) after)
    (htraceable : ∀ draft ∈ drafts, draft.IsTraceable)
    (hseparator : inputs.length ≤ 1 ∨ ∃ text, separator = .text text) (output : Text) :
    ∃ built, Runs (packer.buildParts separator output inputs) before (.ok built) after ∧
      Built before.files.current (separatorText separator) output (inputs.zip drafts) built := by
  induction inputs generalizing before drafts with
  | nil =>
      obtain ⟨hdrafts, rfl⟩ := Prod.mk.inj hprocess
      obtain rfl := Except.ok.inj hdrafts
      exact ⟨[], Runs.of_pure [] before, .nil⟩
  | cons input rest ih =>
      obtain ⟨draft, between, others, hdraft, hrest, rfl⟩ := exists_of_mapM_cons hprocess
      have hcurrent : between.files.current = before.files.current :=
        (packer.blind_process input).current hdraft
      obtain ⟨map, hmap, -⟩ := (htraceable draft List.mem_cons_self).exists_mapBeside
        between.files.current input.path output
      obtain ⟨built, hbuilt, hparts⟩ := ih hrest
        (fun other hother => htraceable other (List.mem_cons_of_mem draft hother))
        (hseparator.imp_left fun hlength => by rw [List.length_cons] at hlength; omega)
      have hbuild (text : Text) : Runs (do
          let map ← Work.lift (mapBeside (← Work.current) input.path output draft.map)
          let part : Part := ⟨text.count (.char '\n'), map⟩
          return (text, part) :: (← packer.buildParts separator output rest)) between
          (.ok ((text, ⟨text.count (.char '\n'), map⟩) :: built)) after := by
        have hcurrent : Runs current between (.ok between.files.current) between := rfl
        apply hcurrent.bind
        rw [hmap]
        exact (Runs.of_lift (.ok map) between).bind (hbuilt.bind (Runs.of_pure _ after))
      rw [List.zip_cons_cons, ← hcurrent]
      unfold buildParts
      cases rest with
      | nil =>
          refine ⟨_, hdraft.bind ?_, .cons (List.append_nil draft.text).symm hmap hparts⟩
          extract_lets next
          rw [pure_bind]
          exact hbuild draft.text
      | cons next rest =>
          obtain ⟨text, rfl⟩ : ∃ text, separator = .text text := by
            simpa using hseparator
          have hsome : (next :: rest).zip others ≠ [] := by
            have hlength := length_of_mapM hrest
            rw [← List.length_pos_iff, List.length_zip, hlength, Nat.min_self]
            exact Nat.succ_pos _
          refine ⟨_, hdraft.bind ?_, .cons (by rw [if_neg hsome]) hmap hparts⟩
          extract_lets next
          dsimp only
          rw [pure_bind]
          exact hbuild (draft.text ++ text)

/-- Each part is the map of a draft beside the output, with the line breaks of its text. -/
theorem Built.exists_pair
    (h : Built current separator output pairs built) {entry : Text × Part} (hentry : entry ∈ built) :
    entry.2.lines = entry.1.count (.char '\n') ∧
      ∃ pair ∈ pairs, mapBeside current pair.1.path output pair.2.map = .ok entry.2.map := by
  induction h with
  | nil => cases hentry
  | @cons input draft rest text map built htext hmap tail ih =>
      rcases List.mem_cons.mp hentry with rfl | hentry
      · exact ⟨rfl, _, List.mem_cons_self, hmap⟩
      · obtain ⟨hlines, pair, hpair, hbeside⟩ := ih hentry
        exact ⟨hlines, pair, List.mem_cons_of_mem _ hpair, hbeside⟩

/-- What a draft is built to stands behind what the drafts before it are built to. -/
theorem Built.split
    (h : Built current separator output (front ++ (input, draft) :: behind) built) :
    ∃ left text map right, built = left ++ (text, ⟨text.count (.char '\n'), map⟩) :: right ∧
      left.map Prod.fst = front.map (fun pair => pair.2.text ++ separator) ∧
      text = draft.text ++ (if behind = [] then [] else separator) ∧
      mapBeside current input.path output draft.map = .ok map ∧
      (right = [] ↔ behind = []) := by
  induction front generalizing built with
  | nil =>
      cases h with
      | cons htext hmap tail =>
          refine ⟨[], _, _, _, rfl, rfl, htext, hmap, ?_⟩
          cases tail <;> simp
  | cons pair front ih =>
      cases h with
      | cons htext hmap tail =>
          obtain ⟨left, text, map, right, rfl, hleft, hrest⟩ := ih tail
          refine ⟨_ :: left, text, map, right, rfl, ?_, hrest⟩
          rw [List.map_cons, List.map_cons, hleft, htext, if_neg (by simp)]

theorem Built.exists_entry
    (h : Built current separator output pairs built) {pair : Input × Draft} (hpair : pair ∈ pairs) :
    ∃ entry ∈ built, mapBeside current pair.1.path output pair.2.map = .ok entry.2.map := by
  induction h with
  | nil => cases hpair
  | cons htext hmap tail ih =>
      rcases List.mem_cons.mp hpair with rfl | hpair
      · exact ⟨_, List.mem_cons_self, hmap⟩
      · obtain ⟨entry, hentry, hbeside⟩ := ih hpair
        exact ⟨entry, List.mem_cons_of_mem _ hentry, hbeside⟩

theorem Built.lines_nonneg (h : Built current separator output pairs built) :
    ∀ part ∈ built.map Prod.snd, 0 ≤ part.lines := by
  intro part hpart
  obtain ⟨entry, hentry, rfl⟩ := List.mem_map.mp hpart
  rw [(h.exists_pair hentry).1]
  exact Int.natCast_nonneg _

theorem Built.sum_lines
    (h : ∀ entry ∈ built, entry.2.lines = entry.1.count (.char '\n')) :
    ((built.map Prod.snd).map Part.lines).sum =
      ((built.map Prod.fst).flatten.count (.char '\n') : Nat) := by
  induction built with
  | nil => rfl
  | cons entry built ih =>
      rw [List.map_cons, List.map_cons, List.sum_cons, List.map_cons, List.flatten_cons,
        List.count_append, h entry List.mem_cons_self,
        ih fun other hother => h other (List.mem_cons_of_mem entry hother), Nat.cast_add]

section Traceable

variable (htraceable : ∀ pair ∈ pairs, pair.2.IsTraceable)
include htraceable

theorem Built.joinable
    (h : Built current separator output pairs built) :
    ∀ part ∈ built.map Prod.snd, ∀ map, part.map = some map → map.Joinable := by
  intro part hpart map hmap
  obtain ⟨entry, hentry, rfl⟩ := List.mem_map.mp hpart
  obtain ⟨-, pair, hpair, hbeside⟩ := h.exists_pair hentry
  obtain ⟨map', hbeside', -, hrelocated⟩ :=
    (htraceable pair hpair).exists_mapBeside current pair.1.path output
  obtain rfl := Except.ok.inj (hbeside'.symm.trans hbeside)
  exact (hrelocated map hmap).1

/-- If the separator ends a line, no text has mappings on lines of the texts behind it. -/
theorem Built.stacked
    (h : Built current separator output pairs built)
    (hseparator : pairs.length ≤ 1 ∨ .char '\n' ∈ separator) :
    Stacked (built.map Prod.snd) := by
  induction h with
  | nil => exact .nil
  | @cons input draft rest text map built htext hmap tail ih =>
      rw [List.map_cons]
      refine List.pairwise_cons.mpr ⟨?_, ih (fun pair hpair =>
        htraceable pair (List.mem_cons_of_mem _ hpair)) (hseparator.imp_left fun hlength => by
          rw [List.length_cons] at hlength; omega)⟩
      intro later hlater _ relocated hsome mapping hmapping
      obtain ⟨entry, hentry, rfl⟩ := List.mem_map.mp hlater
      obtain ⟨-, pair, hpair, -⟩ := tail.exists_pair hentry
      have hrest : rest ≠ [] := List.ne_nil_of_mem hpair
      have hbreak : .char '\n' ∈ separator := by
        refine hseparator.resolve_left fun hlength => ?_
        have hpos := List.length_pos_iff.mpr hrest
        rw [List.length_cons] at hlength
        omega
      obtain ⟨map', hbeside, -, hrelocated⟩ :=
        (htraceable (input, draft) List.mem_cons_self).exists_mapBeside current input.path output
      obtain rfl := Except.ok.inj (hbeside.symm.trans hmap)
      have hline := (hrelocated relocated hsome).2 mapping hmapping
      have hcount : text.count (.char '\n') =
          draft.text.count (.char '\n') + separator.count (.char '\n') := by
        rw [htext, if_neg hrest, List.count_append]
      have hpos := List.count_pos_iff.mpr hbreak
      dsimp only at hline ⊢
      omega

end Traceable

end Built

end Packer

end UrlRebase
