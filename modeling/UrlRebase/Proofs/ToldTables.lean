import Mathlib.Data.List.Forall2
import Mathlib.Data.List.Nodup
import UrlRebase.Setting.Table

/-!
# Tables told by what differs

A table that starts from a standard one can be told by fewer members than it has.  The members
that are left out are those that the standard one gives back, and putting the others into the
standard table restores each member at its place.  The keys are texts.
-/

namespace UrlRebase.Setting

@[simp]
theorem same_text (left right : Text) :
    same (.text left) (.text right) = decide (left = right) := by
  simp [same, sameScalar]

theorem eq_null_of_same {value : Setting} (h : value.same .null = true) : value = .null := by
  cases value <;> simp_all [same, sameScalar, number?]

theorem eq_of_text_same {text : Text} {value : Setting} (h : same (.text text) value = true) :
    value = .text text := by
  cases value <;> simp_all [same, sameScalar, number?]

theorem sameItems_self {items : List Setting} (h : ∀ item ∈ items, ∃ text, item = .text text) :
    sameItems items items = true := by
  induction items with
  | nil => rw [sameItems]
  | cons item rest ih =>
      rw [List.forall_mem_cons] at h
      obtain ⟨⟨text, rfl⟩, hrest⟩ := h
      simp [sameItems, ih hrest]

namespace Members

variable {standard members others : Members} {key value : Setting} {isTold : Setting × Setting → Bool}

def keys (members : Members) : List Setting :=
  members.map Prod.fst

def AreTexts (keys : List Setting) : Prop :=
  ∀ key ∈ keys, ∃ text, key = .text text

theorem same_iff {left right : Setting} (hleft : ∃ text, left = .text text)
    (hright : ∃ text, right = .text text) : left.same right = true ↔ left = right := by
  obtain ⟨text, rfl⟩ := hleft
  obtain ⟨text', rfl⟩ := hright
  simp

theorem get?_eq_none (hkeys : AreTexts members.keys) (hkey : ∃ text, key = .text text)
    (h : key ∉ members.keys) : members.get? key = none := by
  rw [get?, Option.map_eq_none_iff, List.find?_eq_none]
  intro member hmember hsame
  have hmem : member.1 ∈ members.keys := List.mem_map_of_mem hmember
  exact h ((same_iff (hkeys _ hmem) hkey).mp hsame ▸ hmem)

@[simp]
theorem get?_nil (key : Setting) : get? [] key = none := rfl

theorem get?_cons (member : Setting × Setting) (members : Members) (key : Setting) :
    get? (member :: members) key =
      if member.1.same key then some member.2 else members.get? key := by
  cases hsame : member.1.same key <;> simp [get?, hsame]

theorem get?_of_mem (hkeys : AreTexts members.keys) (hnodup : members.keys.Nodup)
    {member : Setting × Setting} (h : member ∈ members) :
    members.get? member.1 = some member.2 := by
  induction members with
  | nil => cases h
  | cons first rest ih =>
      have htext : ∃ text, member.1 = .text text := hkeys _ (List.mem_map_of_mem h)
      obtain ⟨hfirst, hrest⟩ := List.nodup_cons.mp hnodup
      rw [get?_cons]
      rcases List.mem_cons.mp h with rfl | h
      · rw [if_pos ((same_iff htext htext).mpr rfl)]
      · have hne : ¬first.1.same member.1 = true := by
          rw [same_iff (hkeys _ List.mem_cons_self) htext]
          intro heq
          exact hfirst (heq ▸ List.mem_map_of_mem h)
        rw [if_neg hne]
        exact ih (fun key hkey => hkeys key (List.mem_cons_of_mem _ hkey)) hrest h

theorem isSome_get?_iff (hkeys : AreTexts members.keys) (hkey : ∃ text, key = .text text) :
    (members.get? key).isSome = true ↔ key ∈ members.keys := by
  rw [get?, Option.isSome_map, List.find?_isSome, keys, List.mem_map]
  constructor
  · rintro ⟨member, hmember, hsame⟩
    exact ⟨member, hmember, (same_iff (hkeys _ (List.mem_map_of_mem hmember)) hkey).mp hsame⟩
  · rintro ⟨member, hmember, rfl⟩
    exact ⟨member, hmember, (same_iff hkey hkey).mpr rfl⟩

/-- Whether a table has a key hangs on its keys only. -/
theorem isSome_get?_congr (h : members.keys = others.keys) (key : Setting) :
    (members.get? key).isSome = (others.get? key).isSome := by
  have hany (members : Members) :
      (members.get? key).isSome = members.keys.any (·.same key) := by
    rw [get?, Option.isSome_map, List.isSome_find?, keys, List.any_map]
    rfl
  rw [hany, hany, h]

theorem get?_filter (isTold : Setting × Setting → Bool) (hkeys : AreTexts members.keys) (hnodup : members.keys.Nodup)
    (hkey : ∃ text, key = .text text) :
    get? (members.filter isTold) key =
      (members.get? key).filter fun value => isTold (key, value) := by
  induction members with
  | nil => rfl
  | cons first rest ih =>
      obtain ⟨hfirst, hrest⟩ := List.nodup_cons.mp hnodup
      have hrestkeys : AreTexts (keys rest) := fun key hkey =>
        hkeys key (List.mem_cons_of_mem _ hkey)
      have htold := ih hrestkeys hrest
      have hsame := same_iff (hkeys first.1 List.mem_cons_self) hkey
      rw [get?_cons]
      by_cases heq : first.1 = key
      · rw [if_pos (hsame.mpr heq)]
        subst heq
        by_cases hfirsttold : isTold first = true
        · rw [List.filter_cons_of_pos hfirsttold, get?_cons, if_pos (hsame.mpr rfl)]
          simp [Option.filter, hfirsttold]
        · rw [List.filter_cons_of_neg hfirsttold, htold, get?_eq_none hrestkeys hkey hfirst]
          simp [Option.filter, hfirsttold]
      · rw [if_neg (mt hsame.mp heq), ← htold]
        by_cases hfirsttold : isTold first = true
        · rw [List.filter_cons_of_pos hfirsttold, get?_cons, if_neg (mt hsame.mp heq)]
        · rw [List.filter_cons_of_neg hfirsttold]

/-! ## Putting members in -/

theorem put_cons_of_ne {head : Setting × Setting} (hhead : ∃ text, head.1 = .text text)
    (hkey : ∃ text, key = .text text) (h : head.1 ≠ key) :
    put (head :: members) key value = head :: members.put key value := by
  rw [put, if_neg (mt (same_iff hhead hkey).mp h)]

theorem put_of_not_mem (hkeys : AreTexts members.keys) (hkey : ∃ text, key = .text text)
    (h : key ∉ members.keys) : members.put key value = members ++ [(key, value)] := by
  induction members with
  | nil => rfl
  | cons head rest ih =>
      have hne : head.1 ≠ key := fun heq => h (heq ▸ List.mem_cons_self)
      rw [put_cons_of_ne (hkeys _ List.mem_cons_self) hkey hne, List.cons_append]
      exact congrArg _ (ih (fun key hkey => hkeys key (List.mem_cons_of_mem _ hkey))
        fun hmem => h (List.mem_cons_of_mem _ hmem))

theorem keys_put_of_mem (value : Setting) (hkeys : AreTexts members.keys) (hkey : ∃ text, key = .text text)
    (h : key ∈ members.keys) : (members.put key value).keys = members.keys := by
  induction members with
  | nil => cases h
  | cons head rest ih =>
      by_cases heq : head.1 = key
      · rw [put, if_pos ((same_iff (hkeys _ List.mem_cons_self) hkey).mpr heq)]
        rfl
      · rw [put_cons_of_ne (hkeys _ List.mem_cons_self) hkey heq]
        have hmem : key ∈ keys rest := (List.mem_cons.mp h).resolve_left fun h => heq h.symm
        have hrest := ih (fun key hkey => hkeys key (List.mem_cons_of_mem _ hkey)) hmem
        exact congrArg (head.1 :: ·) hrest

theorem of_mem_put {member : Setting × Setting} (h : member ∈ members.put key value) :
    member ∈ members ∨ member.2 = value := by
  induction members with
  | nil => exact .inr (congrArg Prod.snd (List.mem_singleton.mp h))
  | cons head rest ih =>
      rw [put] at h
      split at h
      · rcases List.mem_cons.mp h with rfl | h
        · exact .inr rfl
        · exact .inl (List.mem_cons_of_mem _ h)
      · rcases List.mem_cons.mp h with rfl | h
        · exact .inl List.mem_cons_self
        · exact (ih h).imp_left (List.mem_cons_of_mem _)

/-- A property that all values of two tables have is one of the values when the one is put into
the other. -/
theorem forall_putAll {P : Setting → Prop} (hmembers : ∀ member ∈ members, P member.2)
    (hothers : ∀ member ∈ others, P member.2) : ∀ member ∈ members.putAll others, P member.2 := by
  induction others generalizing members with
  | nil => exact hmembers
  | cons other rest ih =>
      rw [List.forall_mem_cons] at hothers
      apply ih _ hothers.2
      intro member hmember
      rcases of_mem_put hmember with hmember | hvalue
      · exact hmembers member hmember
      · exact hvalue ▸ hothers.1

/-- Members that start with the keys of a standard table, each key once. -/
structure Extends (standard members : Members) : Prop where
  starts : standard.keys <+: members.keys
  nodup : members.keys.Nodup
  texts : AreTexts members.keys

namespace Extends

theorem self (names : List Text) (hkeys : members.keys = names.map .text) (h : names.Nodup) :
    Extends members members where
  starts := List.prefix_rfl
  nodup := by
    have htext : Function.Injective Setting.text := fun _ _ => Setting.text.inj
    rw [hkeys]
    exact h.map htext
  texts := by
    intro key hkey
    rw [hkeys, List.mem_map] at hkey
    obtain ⟨text, -, rfl⟩ := hkey
    exact ⟨text, rfl⟩

theorem put (h : Extends standard members) (hkey : ∃ text, key = .text text) :
    Extends standard (members.put key value) := by
  by_cases hmem : key ∈ members.keys
  · have hkeys := keys_put_of_mem value h.texts hkey hmem
    exact ⟨hkeys ▸ h.starts, hkeys ▸ h.nodup, hkeys ▸ h.texts⟩
  · have hkeys : (members.put key value).keys = members.keys ++ [key] := by
      rw [put_of_not_mem h.texts hkey hmem, keys, List.map_append]
      rfl
    refine ⟨hkeys ▸ h.starts.trans (List.prefix_append _ _), ?_, ?_⟩
    · rw [hkeys, ← List.concat_eq_append]
      exact List.Nodup.concat hmem h.nodup
    · rw [hkeys]
      intro other hother
      rcases List.mem_append.mp hother with hother | hother
      · exact h.texts other hother
      · exact List.mem_singleton.mp hother ▸ hkey

theorem putAll (h : Extends standard members) (hothers : AreTexts others.keys) :
    Extends standard (members.putAll others) := by
  induction others generalizing members with
  | nil => exact h
  | cons other rest ih =>
      exact ih (h.put (hothers _ List.mem_cons_self)) fun key hkey =>
        hothers key (List.mem_cons_of_mem _ hkey)

end Extends

theorem putAll_cons_of_not_mem (members : Members) {head : Setting × Setting}
    (hhead : ∃ text, head.1 = .text text) (hothers : AreTexts others.keys)
    (h : head.1 ∉ others.keys) :
    putAll (head :: members) others = head :: members.putAll others := by
  induction others generalizing members with
  | nil => rfl
  | cons other rest ih =>
      have hne : head.1 ≠ other.1 := fun heq => h (heq ▸ List.mem_cons_self)
      have hput : (put (head :: members) other.1 other.2) = head :: members.put other.1 other.2 :=
        put_cons_of_ne hhead (hothers _ List.mem_cons_self) hne
      rw [putAll, List.foldl_cons, hput]
      exact ih _ (fun key hkey => hothers key (List.mem_cons_of_mem _ hkey)) fun hmem =>
        h (List.mem_cons_of_mem _ hmem)

/-- Members with other keys than a table has go behind it. -/
theorem putAll_of_nodup (htexts : AreTexts (members ++ others).keys)
    (hnodup : (members ++ others).keys.Nodup) : members.putAll others = members ++ others := by
  induction others generalizing members with
  | nil => exact (List.append_nil _).symm
  | cons other rest ih =>
      have hcons : members ++ other :: rest = members ++ [other] ++ rest := by simp
      have hkeys : (members ++ other :: rest).keys = members.keys ++ other.1 :: keys rest := by
        rw [keys, List.map_append]
        rfl
      have hother : other.1 ∉ members.keys := by
        rw [hkeys] at hnodup
        exact fun hmem => (List.nodup_append.mp hnodup).2.2 _ hmem _ List.mem_cons_self rfl
      have hput : members.put other.1 other.2 = members ++ [other] := by
        apply put_of_not_mem _ _ hother
        · exact fun key hkey => htexts key (hkeys ▸ List.mem_append_left _ hkey)
        · exact htexts _ (hkeys ▸ List.mem_append_right _ List.mem_cons_self)
      rw [putAll, List.foldl_cons, hput]
      rw [hcons] at htexts hnodup ⊢
      exact ih htexts hnodup

/-- A member comes back if it is told, and one of the standard table at its key if it is not. -/
def Restores (isTold : Setting × Setting → Bool) (standard : Members)
    (member restored : Setting × Setting) : Prop :=
  restored.1 = member.1 ∧ if isTold member then restored = member else restored ∈ standard

theorem Restores.cons (head : Setting × Setting) {member restored : Setting × Setting}
    (h : Restores isTold standard member restored) :
    Restores isTold (head :: standard) member restored := by
  refine h.imp_right fun h => ?_
  by_cases htold : isTold member = true
  · rwa [if_pos htold] at h ⊢
  · rw [if_neg htold] at h ⊢
    exact List.mem_cons_of_mem head h

/-- Members that are told give back those that are not, if these have their keys in common with
the standard table. -/
theorem putAll_filter (isTold : Setting × Setting → Bool) (h : Extends standard members)
    (htold : ∀ member ∈ members, member.1 ∉ standard.keys → isTold member = true) :
    List.Forall₂ (Restores isTold standard) members
      (standard.putAll (members.filter isTold)) := by
  induction standard generalizing members with
  | nil =>
      have hall : members.filter isTold = members :=
        List.filter_eq_self.mpr fun member hmember => htold member hmember List.not_mem_nil
      have hrestored : putAll [] members = members := putAll_of_nodup h.texts h.nodup
      rw [hall, hrestored]
      refine List.forall₂_same.mpr fun member hmember => ⟨rfl, ?_⟩
      rw [if_pos (htold member hmember List.not_mem_nil)]
  | cons head standard ih =>
      cases members with
      | nil => exact absurd h.starts.length_le (by simp [keys])
      | cons first rest =>
          obtain ⟨hkey, hstarts⟩ := List.cons_prefix_cons.mp h.starts
          obtain ⟨hfirst, hrest⟩ := List.nodup_cons.mp h.nodup
          have htexts : AreTexts (keys rest) := fun key hkey =>
            h.texts key (List.mem_cons_of_mem _ hkey)
          have hhead : ∃ text, first.1 = .text text := h.texts _ List.mem_cons_self
          have hothers : keys (rest.filter isTold) ⊆ keys rest :=
            (List.filter_sublist.map Prod.fst).subset
          have hnot : first.1 ∉ keys (rest.filter isTold) := fun hmem => hfirst (hothers hmem)
          have hrestored := ih ⟨hstarts, hrest, htexts⟩ fun member hmember hmem => by
            refine htold member (List.mem_cons_of_mem _ hmember) fun hcons => ?_
            rcases List.mem_cons.mp hcons with heq | hcons
            · exact hfirst (hkey ▸ heq ▸ List.mem_map_of_mem hmember)
            · exact hmem hcons
          have hbehind := hrestored.imp fun _ _ h => h.cons head
          have htextsTold : AreTexts (keys (rest.filter isTold)) := fun key hkey =>
            htexts key (hothers hkey)
          by_cases hfirsttold : isTold first = true
          · have hput : put (head :: standard) first.1 first.2 = first :: standard := by
              rw [put, if_pos ((same_iff (hkey ▸ hhead) hhead).mpr hkey)]
              exact congrArg (· :: standard) (Prod.ext hkey rfl)
            rw [List.filter_cons_of_pos hfirsttold, putAll, List.foldl_cons, hput]
            have hcons := putAll_cons_of_not_mem standard hhead htextsTold hnot
            rw [putAll] at hcons
            rw [hcons]
            exact .cons ⟨rfl, by rw [if_pos hfirsttold]⟩ hbehind
          · rw [List.filter_cons_of_neg hfirsttold,
              putAll_cons_of_not_mem _ (hkey ▸ hhead) htextsTold (hkey ▸ hnot)]
            exact .cons ⟨hkey, by rw [if_neg hfirsttold]; exact List.mem_cons_self⟩ hbehind

/-- Whether a member says something that a standard table does not. -/
def differs (standard : Members) (member : Setting × Setting) : Bool :=
  match standard.get? member.1 with
  | none => true
  | some other => !member.2.same other

/-- Tables with the same keys in the same order and with equal settings. -/
def Agree (members others : Members) : Prop :=
  List.Forall₂ (fun member other => member.1 = other.1 ∧ member.2.same other.2 = true)
    members others

theorem agree_putAll_differs (hstandard : Extends standard standard)
    (h : Extends standard members) (hself : ∀ member ∈ members, member.2.same member.2 = true) :
    Agree members (standard.putAll (members.filter (differs standard))) := by
  have hrestored := putAll_filter (differs standard) h fun member hmember hmem => by
    rw [differs, get?_eq_none hstandard.texts (h.texts _ (List.mem_map_of_mem hmember)) hmem]
  refine ((List.forall₂_and_left _ _).mpr ⟨hself, hrestored⟩).imp ?_
  rintro member restored ⟨hsame, hkey, hrestored⟩
  split at hrestored
  · rw [hrestored]
    exact ⟨rfl, hsame⟩
  · rename_i htold
    have hget := get?_of_mem hstandard.texts hstandard.nodup hrestored
    rw [differs, ← hkey, hget] at htold
    exact ⟨hkey.symm, by simpa using htold⟩

theorem Agree.eq_of_texts (h : Agree members others)
    (htexts : ∀ member ∈ members, ∃ text, member.2 = .text text) : others = members := by
  induction h with
  | nil => rfl
  | @cons member other members others hfirst hrest ih =>
      rw [List.forall_mem_cons] at htexts
      obtain ⟨⟨text, htext⟩, hothers⟩ := htexts
      have hvalue : other.2 = member.2 := htext ▸ eq_of_text_same (htext ▸ hfirst.2)
      rw [ih hothers, Prod.ext hfirst.1.symm hvalue]

/-- The members that a table has besides those of a standard one. -/
def besides (standard members : Members) : Members :=
  members.filter fun member => (standard.get? member.1).isNone

theorem putAll_besides (hstandard : Extends standard standard) (h : Extends standard members) :
    standard.putAll (standard.besides members) = standard ++ standard.besides members := by
  have hothers : (keys (standard.besides members)).Sublist members.keys :=
    List.filter_sublist.map Prod.fst
  have hkeys : keys (standard ++ standard.besides members) =
      standard.keys ++ keys (standard.besides members) := List.map_append
  apply putAll_of_nodup
  · rw [hkeys]
    intro key hkey
    rcases List.mem_append.mp hkey with hkey | hkey
    · exact hstandard.texts key hkey
    · exact h.texts key (hothers.subset hkey)
  · rw [hkeys, List.nodup_append]
    refine ⟨hstandard.nodup, h.nodup.sublist hothers, ?_⟩
    rintro key hkey _ hother rfl
    obtain ⟨other, hmem, rfl⟩ := List.mem_map.mp hother
    have hsome := (isSome_get?_iff hstandard.texts (hstandard.texts _ hkey)).mpr hkey
    have hnone := (List.mem_filter.mp hmem).2
    rw [Option.isNone_iff_eq_none] at hnone
    rw [hnone] at hsome
    cases hsome

theorem restores_besides (hstandard : Extends standard standard) (h : Extends standard members) :
    List.Forall₂ (Restores (fun member => (standard.get? member.1).isNone) standard) members
      (standard.putAll (standard.besides members)) := by
  apply putAll_filter _ h
  intro member hmember hmem
  rw [get?_eq_none hstandard.texts (h.texts _ (List.mem_map_of_mem hmember)) hmem]
  rfl

theorem keys_putAll_besides (hstandard : Extends standard standard) (h : Extends standard members) :
    keys (standard.putAll (standard.besides members)) = members.keys := by
  have hkeys : List.Forall₂ Eq members.keys (keys (standard.putAll (standard.besides members))) :=
    List.forall₂_map_left_iff.mpr (List.forall₂_map_right_iff.mpr
      ((restores_besides hstandard h).imp fun _ _ h => h.1.symm))
  rw [List.forall₂_eq_eq_eq] at hkeys
  exact hkeys.symm

/-- A table of which only the members besides the standard ones are told comes back just if it
has the standard ones. -/
theorem putAll_besides_eq_iff (hstandard : Extends standard standard)
    (h : Extends standard members) :
    standard.putAll (standard.besides members) = members ↔
      ∀ member ∈ standard, members.get? member.1 = some member.2 := by
  constructor
  · intro heq member hmember
    rw [putAll_besides hstandard h] at heq
    exact get?_of_mem h.texts h.nodup (heq ▸ List.mem_append_left _ hmember)
  · intro hall
    have heq := ((List.forall₂_and_left _ _).mpr
      ⟨fun _ hmember => hmember, restores_besides hstandard h⟩).imp
      fun member restored ⟨hmember, hkey, hrestored⟩ => show member = restored by
        split at hrestored
        · exact hrestored.symm
        · have hget := hall restored hrestored
          rw [hkey, get?_of_mem h.texts h.nodup hmember] at hget
          exact Prod.ext hkey.symm (Option.some.inj hget)
    rw [List.forall₂_eq_eq_eq] at heq
    exact heq.symm

end Members

end UrlRebase.Setting
