import Mathlib.Data.List.Basic
import UrlRebase.SourceMap.Basic

/-!
# Recorded contents

A map may list the contents of its sources beside them, and the list may be shorter than that
of the sources.  A source that is added goes to the end of the one list and its content to the
end of the other, so contents stay with their sources if the two lists end together, and
otherwise only if there is nothing to record.
-/

namespace UrlRebase.SourceMap

/-- The map after sources were asked for one after the other, each with its content. -/
def internAll (map : SourceMap) (calls : List (Text × Json)) : SourceMap :=
  calls.foldl (fun map call => (map.internSource call.1 call.2).2) map

/-- The content that is recorded for the source at an index: null if the list is too short. -/
def contentAt (map : SourceMap) (index : Nat) : Json :=
  ((map.contents.getD [])[index]?).getD .null

/-- The calls that add their source, one after the other. -/
def adding (map : SourceMap) : List (Text × Json) → List (Text × Json)
  | [] => []
  | call :: calls =>
      if map.sources.contains call.1 then map.adding calls
      else call :: (map.internSource call.1 call.2).2.adding calls

/-- What it means that contents stay with their sources while sources are asked for: those that
were listed before keep the content that they had, and one that is added has the content that
was given with it. -/
structure ContentsStay (map : SourceMap) (calls : List (Text × Json)) : Prop where
  listed : ∀ index < map.sources.length,
    (map.internAll calls).contentAt index = map.contentAt index
  added : ∀ front call back, calls = front ++ call :: back →
    call.1 ∉ (map.internAll front).sources →
    (map.internAll calls).contentAt ((map.internAll front).internSource call.1 call.2).1 = call.2

theorem internSource_of_mem {map : SourceMap} {source : Text} (h : source ∈ map.sources)
    (content : Json) : (map.internSource source content).2 = map := by
  unfold internSource
  split
  · rfl
  · rename_i hnone
    exact absurd h (List.idxOf?_eq_none_iff.mp hnone)

theorem internSource_of_notMem {map : SourceMap} {source : Text} (h : source ∉ map.sources)
    (content : Json) :
    map.internSource source content = (map.sources.length,
      { map with
        sources := map.sources ++ [source]
        contents := map.contents.map (· ++ [content]) }) := by
  rw [internSource, List.idxOf?_eq_none_iff.mpr h]

theorem adding_of_mem {map : SourceMap} {call : Text × Json} (h : call.1 ∈ map.sources)
    (calls : List (Text × Json)) : map.adding (call :: calls) = map.adding calls := by
  rw [adding, if_pos (List.contains_iff_mem.mpr h)]

theorem adding_of_notMem {map : SourceMap} {call : Text × Json} (h : call.1 ∉ map.sources)
    (calls : List (Text × Json)) :
    map.adding (call :: calls) = call :: (map.internSource call.1 call.2).2.adding calls := by
  rw [adding, if_neg (mt List.contains_iff_mem.mp h)]

/-- Both lists grow by what the calls add. -/
theorem internAll_spec (map : SourceMap) (calls : List (Text × Json)) :
    (map.internAll calls).sources = map.sources ++ (map.adding calls).map Prod.fst ∧
      (map.internAll calls).contents =
        map.contents.map (· ++ (map.adding calls).map Prod.snd) := by
  induction calls generalizing map with
  | nil => simp [internAll, adding]
  | cons call calls ih =>
      rw [internAll, List.foldl_cons]
      by_cases hmem : call.1 ∈ map.sources
      · rw [internSource_of_mem hmem, adding_of_mem hmem]
        exact ih map
      · rw [adding_of_notMem hmem, internSource_of_notMem hmem]
        obtain ⟨hsources, hcontents⟩ := ih { map with
          sources := map.sources ++ [call.1]
          contents := map.contents.map (· ++ [call.2]) }
        refine ⟨hsources.trans (by simp), hcontents.trans ?_⟩
        rw [Option.map_map, List.map_cons]
        congr 1
        funext contents
        simp

theorem adding_append (map : SourceMap) (front back : List (Text × Json)) :
    map.adding (front ++ back) = map.adding front ++ (map.internAll front).adding back := by
  induction front generalizing map with
  | nil => rfl
  | cons call front ih =>
      rw [List.cons_append, internAll, List.foldl_cons]
      by_cases hmem : call.1 ∈ map.sources
      · rw [internSource_of_mem hmem, adding_of_mem hmem, adding_of_mem hmem]
        exact ih map
      · rw [adding_of_notMem hmem, adding_of_notMem hmem, List.cons_append]
        exact congrArg _ (ih _)

theorem exists_call_of_adding
    {map : SourceMap} {calls : List (Text × Json)} {place : Nat} {call : Text × Json}
    (h : (map.adding calls)[place]? = some call) :
    ∃ front back, calls = front ++ call :: back ∧ call.1 ∉ (map.internAll front).sources ∧
      (map.adding front).length = place := by
  induction calls generalizing map place with
  | nil => simp [adding] at h
  | cons first calls ih =>
      by_cases hmem : first.1 ∈ map.sources
      · rw [adding_of_mem hmem] at h
        obtain ⟨front, back, rfl, hnot, hplace⟩ := ih h
        refine ⟨first :: front, back, rfl, ?_, ?_⟩
        · rwa [internAll, List.foldl_cons, internSource_of_mem hmem]
        · rwa [adding_of_mem hmem]
      · rw [adding_of_notMem hmem] at h
        cases place with
        | zero =>
            obtain rfl := Option.some.inj h
            exact ⟨[], calls, rfl, hmem, rfl⟩
        | succ place =>
            obtain ⟨front, back, rfl, hnot, hplace⟩ := ih h
            refine ⟨first :: front, back, rfl, hnot, ?_⟩
            rw [adding_of_notMem hmem, List.length_cons, hplace]

section Recorded

variable {map : SourceMap} {contents : List Json} (hcontents : map.contents = some contents)
include hcontents

theorem contentAt_eq (index : Nat) : map.contentAt index = (contents[index]?).getD .null := by
  rw [contentAt, hcontents, Option.getD_some]

theorem contentAt_internAll (calls : List (Text × Json)) (index : Nat) :
    (map.internAll calls).contentAt index =
      ((contents ++ (map.adding calls).map Prod.snd)[index]?).getD .null := by
  refine contentAt_eq ?_ index
  rw [(map.internAll_spec calls).2, hcontents, Option.map_some]

/-- The contents behind the end of a list are those that were given with added sources. -/
theorem contentAt_internAll_add (calls : List (Text × Json)) (place : Nat) :
    (map.internAll calls).contentAt (contents.length + place) =
      (((map.adding calls)[place]?).map Prod.snd).getD .null := by
  rw [contentAt_internAll hcontents, List.getElem?_append_right (by omega),
    Nat.add_sub_cancel_left, List.getElem?_map]

omit hcontents in
theorem contentAt_of_added
    {calls front back : List (Text × Json)} {call : Text × Json}
    (hcalls : calls = front ++ call :: back) (hnew : call.1 ∉ (map.internAll front).sources) :
    (map.adding calls)[(map.adding front).length]? = some call ∧
      ((map.internAll front).internSource call.1 call.2).1 =
        map.sources.length + (map.adding front).length := by
  constructor
  · rw [hcalls, adding_append, List.getElem?_append_right (Nat.le_refl _), Nat.sub_self,
      adding_of_notMem hnew]
    rfl
  · rw [internSource_of_notMem hnew, (map.internAll_spec front).1, List.length_append,
      List.length_map]

theorem ContentsStay.null
    {calls : List (Text × Json)} (h : map.ContentsStay calls)
    (hshort : contents.length < map.sources.length) (place : Nat) (call : Text × Json)
    (hcall : (map.adding calls)[place]? = some call) : call.2 = .null := by
  -- A content is recorded for the source so many places before the one that it was given with.
  induction place using Nat.strongRecOn generalizing call with
  | ind place ih =>
      have hrecorded := contentAt_internAll_add hcontents calls place
      rw [hcall] at hrecorded
      refine hrecorded.symm.trans ?_
      by_cases hlisted : contents.length + place < map.sources.length
      · rw [h.listed _ hlisted, contentAt_eq hcontents, List.getElem?_eq_none (by omega)]
        rfl
      · obtain ⟨earlier, hearlier⟩ : ∃ earlier, contents.length + place =
            map.sources.length + earlier := ⟨_, (Nat.add_sub_of_le (by omega)).symm⟩
        have hlt := (List.getElem?_eq_some_iff.mp hcall).1
        obtain ⟨first, hfirst⟩ : ∃ first, (map.adding calls)[earlier]? = some first :=
          ⟨_, List.getElem?_eq_getElem (by omega)⟩
        obtain ⟨front, back, hcalls, hnew, hplace⟩ := exists_call_of_adding hfirst
        have hadded := h.added front first back hcalls hnew
        rw [(contentAt_of_added hcalls hnew).2, hplace, ← hearlier] at hadded
        exact hadded.trans (ih earlier (by omega) first hfirst)

theorem contentAt_internAll_of_null
    {calls : List (Text × Json)} (hnull : ∀ call ∈ map.adding calls, call.2 = .null)
    {index : Nat} (hindex : contents.length ≤ index) :
    (map.internAll calls).contentAt index = .null := by
  obtain ⟨place, rfl⟩ := Nat.exists_eq_add_of_le hindex
  rw [contentAt_internAll_add hcontents]
  cases hcall : (map.adding calls)[place]? with
  | none => rfl
  | some call => exact hnull call (List.mem_of_getElem? hcall)

theorem contentAt_internAll_of_lt (calls : List (Text × Json)) {index : Nat}
    (hindex : index < contents.length) :
    (map.internAll calls).contentAt index = map.contentAt index := by
  rw [contentAt_internAll hcontents, contentAt_eq hcontents, List.getElem?_append_left hindex]

theorem contentsStay_of_length
    (hlength : contents.length = map.sources.length) (calls : List (Text × Json)) :
    map.ContentsStay calls where
  listed index hindex := contentAt_internAll_of_lt hcontents calls (hlength ▸ hindex)
  added front call back hcalls hnew := by
    obtain ⟨hplace, hindex⟩ := contentAt_of_added hcalls hnew
    rw [hindex, ← hlength, contentAt_internAll_add hcontents, hplace]
    rfl

theorem contentsStay_of_null
    (hlength : contents.length ≤ map.sources.length) {calls : List (Text × Json)}
    (hnull : ∀ call ∈ map.adding calls, call.2 = .null) : map.ContentsStay calls where
  listed index _ := by
    by_cases hindex : index < contents.length
    · exact contentAt_internAll_of_lt hcontents calls hindex
    · rw [contentAt_internAll_of_null hcontents hnull (by omega), contentAt_eq hcontents,
        List.getElem?_eq_none (by omega)]
      rfl
  added front call back hcalls hnew := by
    obtain ⟨hplace, hindex⟩ := contentAt_of_added hcalls hnew
    rw [hindex, contentAt_internAll_of_null hcontents hnull (by omega),
      hnull call (List.mem_of_getElem? hplace)]

/-- Contents stay with their sources exactly if every source has one recorded, or nothing is
given with those that are added. -/
theorem contentsStay_iff
    (hlength : contents.length ≤ map.sources.length) (calls : List (Text × Json)) :
    map.ContentsStay calls ↔
      contents.length = map.sources.length ∨ ∀ call ∈ map.adding calls, call.2 = .null := by
  constructor
  · intro h
    by_cases hshort : contents.length < map.sources.length
    · refine .inr fun call hcall => ?_
      obtain ⟨place, hplace⟩ := List.mem_iff_getElem?.mp hcall
      exact h.null hcontents hshort place call hplace
    · exact .inl (by omega)
  · rintro (hsame | hnull)
    · exact contentsStay_of_length hcontents hsame calls
    · exact contentsStay_of_null hcontents hlength hnull

end Recorded

/-- A map with a content for its one source records one for each source that is added. -/
theorem contentsStay_of_one :
    (ofParts ["a".text] [] [] .null .null (some [.string "A".text])).ContentsStay
      [("b".text, .string "B".text), ("a".text, .null), ("c".text, .null)] :=
  (@contentsStay_iff _ [.string "A".text] rfl (by decide) _).mpr (.inl rfl)

/-- A map without a content for its last source takes the content of an added source for it. -/
theorem exists_misplaced_content :
    ∃ map, load (.json (.object [("version".text, .int 3),
        ("sources".text, .array [.string "a".text, .string "b".text]),
        ("names".text, .array []), ("mappings".text, .string []),
        ("sourcesContent".text, .array [.string "A".text])])) = .ok map ∧
      map.contents = some [.string "A".text] ∧ map.sources = ["a".text, "b".text] ∧
      ¬map.ContentsStay [("c".text, .string "C".text)] := by
  refine ⟨ofParts ["a".text, "b".text] [] [] .null .null (some [.string "A".text]), ?_, ?_, ?_,
    fun h => ?_⟩
  · rfl
  · rfl
  · rfl
  · have hlast := h.added [] ("c".text, .string "C".text) [] rfl (by decide)
    cases hlast

end UrlRebase.SourceMap
