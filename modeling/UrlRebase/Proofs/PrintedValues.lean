import UrlRebase.Proofs.PrintedNumbers
import UrlRebase.Proofs.PrintedStrings

/-!
# Printed values

A value that is nested no deeper than the reader allows, and whose integers have no more digits
than it allows, is printed as a text that is read.  Texts are read with their halves paired,
items and members in their order.
-/

namespace UrlRebase

theorem Forall₂.exists_of_forall
    {α β : Type} {r : α → β → Prop} {left : List α} (h : ∀ a ∈ left, ∃ b, r a b) :
    ∃ right, List.Forall₂ r left right := by
  induction left with
  | nil => exact ⟨[], .nil⟩
  | cons a left ih =>
      obtain ⟨b, hab⟩ := h a List.mem_cons_self
      obtain ⟨right, hright⟩ := ih fun a' ha' => h a' (List.mem_cons_of_mem a ha')
      exact ⟨b :: right, .cons hab hright⟩

namespace Json

/-- Whether a value is nested no deeper than a limit and its integers are not too long. -/
inductive Fits : Nat → Json → Prop
  | null {room : Nat} : Fits room .null
  | bool {room : Nat} {value : Bool} : Fits room (.bool value)
  | int {room : Nat} {n : Int} (hshort : Text.isTooLong n = false) : Fits room (.int n)
  | double {room : Nat} {value : Double} : Fits room (.double value)
  | string {room : Nat} {value : Text} : Fits room (.string value)
  | array {room : Nat} {items : List Json} (hitems : ∀ item ∈ items, Fits room item) :
      Fits (room + 1) (.array items)
  | object {room : Nat} {members : List (Text × Json)}
      (hmembers : ∀ member ∈ members, Fits room member.2) : Fits (room + 1) (.object members)

/-- Whether a text is read as a value that may be nested up to a limit, in front of
whatever may follow a value. -/
def ReadsAs (room : Nat) (written : Text) (read : Json) : Prop :=
  ∀ count rest, 2 * written.length ≤ count → Stops rest →
    value room count (written ++ rest) = .ok (read, rest)

/-- Whether a member is read as another, its key with the halves paired. -/
def MemberReadsAs (room : Nat) (member read : Text × Json) : Prop :=
  read.1 = Text.paired member.1 ∧ ReadsAs room (print member.2) read.2

/-! ## The starts of values -/

theorem scalar?_nil : scalar? [] = none := rfl

theorem scalar?_bracket
    {c : CodePoint} (hc : isSpace c ∨ c = '[' ∨ c = ']' ∨ c = '\x7b') (rest : Text) :
    scalar? (c :: rest) = none := by
  simp only [isSpace, Bool.or_eq_true, decide_eq_true_eq] at hc
  rcases hc with (((rfl | rfl) | rfl) | rfl) | rfl | rfl | rfl <;> rfl

theorem value_of_scalar?
    {text rest : Text} {read : Json} (h : scalar? text = some (read, rest)) (room count : Nat) :
    value room (count + 1) text = .ok (read, rest) := by
  rw [value]
  · rw [h]
    rfl
  · rintro behind rfl
    rw [scalar?_bracket (by simp)] at h
    simp at h
  · rintro behind rfl
    rw [scalar?_bracket (by simp)] at h
    simp at h

theorem value_of_scalar?_eq_none
    {text : Text} (h : scalar? text = none) (hopen : ∀ behind, text ≠ CodePoint.char '[' :: behind)
    (hopen' : ∀ behind, text ≠ CodePoint.char '\x7b' :: behind) (room count : Nat) :
    value room (count + 1) text = .error .malformed := by
  rw [value, h]
  · rfl
  · exact hopen
  · exact hopen'

theorem readsAs_of_scalar?
    {written : Text} {read : Json}
    (h : ∀ rest, Stops rest → scalar? (written ++ rest) = some (read, rest)) (room : Nat) :
    ReadsAs room written read := by
  intro count rest hcount hrest
  obtain ⟨n, rfl⟩ : ∃ n, count = n + 1 := by
    apply Nat.exists_eq_add_one_of_ne_zero
    rintro rfl
    obtain rfl : written = [] := List.eq_nil_of_length_eq_zero (by omega)
    have hnil : scalar? [] = some (read, []) := h [] (by simp [Stops])
    simp [scalar?_nil] at hnil
  exact value_of_scalar? (h rest hrest) room n

theorem exists_cons_of_scalar?
    {text : Text} {result : Json × Text} (h : scalar? text = some result) :
    ∃ c rest, text = c :: rest ∧ isSpace c = false ∧ c ≠ ']' := by
  cases text with
  | nil => simp [scalar?_nil] at h
  | cons c rest =>
      by_cases hc : isSpace c ∨ c = '[' ∨ c = ']' ∨ c = '\x7b'
      · simp [scalar?_bracket hc] at h
      · simp only [not_or, Bool.not_eq_true] at hc
        exact ⟨c, rest, rfl, hc.1, hc.2.2.1⟩

theorem ne_of_ofInt_cons
    {n : Int} {c : CodePoint} {rest : Text} (h : Text.ofInt n = c :: rest) {d : CodePoint}
    (hminus : d ≠ '-') (hdigit : d.isDigit = false) : c ≠ d := by
  obtain ⟨c', rest', hcons, hc⟩ := exists_ofInt_cons n
  obtain ⟨rfl, -⟩ := List.cons.inj (h.symm.trans hcons)
  rintro rfl
  rcases hc with rfl | hc
  · exact hminus rfl
  · simp [hdigit] at hc

/-- A printed value starts with neither a space nor a closing bracket. -/
theorem exists_print_cons (printed : Json) :
    ∃ c rest, print printed = c :: rest ∧ isSpace c = false ∧ c ≠ ']' := by
  cases printed with
  | null => exact ⟨'n', _, rfl, rfl, by decide⟩
  | bool value =>
      cases value with
      | true => exact ⟨'t', _, rfl, rfl, by decide⟩
      | false => exact ⟨'f', _, rfl, rfl, by decide⟩
  | int n =>
      obtain ⟨c, rest, hcons, -⟩ := exists_ofInt_cons n
      have hne {d : CodePoint} (hminus : d ≠ '-') (hdigit : d.isDigit = false) : c ≠ d :=
        ne_of_ofInt_cons hcons hminus hdigit
      refine ⟨c, rest, hcons, ?_, hne (by decide) rfl⟩
      simp only [isSpace, Bool.or_eq_false_iff, decide_eq_false_iff_not]
      exact ⟨⟨⟨hne (by decide) rfl, hne (by decide) rfl⟩, hne (by decide) rfl⟩, hne (by decide) rfl⟩
  | double value =>
      obtain ⟨read, hread⟩ := exists_scalar?_toText value
      have hscalar := hread [] (by simp [Stops])
      rw [List.append_nil] at hscalar
      exact exists_cons_of_scalar? hscalar
  | string value => exact ⟨'"', _, rfl, rfl, by decide⟩
  | array items => exact ⟨'[', _, rfl, rfl, by decide⟩
  | object members => exact ⟨'\x7b', _, rfl, rfl, by decide⟩

theorem skipSpace_cons {c : CodePoint} (hc : isSpace c = false) (rest : Text) :
    skipSpace (c :: rest) = c :: rest :=
  List.dropWhile_cons_of_neg (by simp [hc])

theorem skipSpace_print (printed : Json) (rest : Text) :
    skipSpace (print printed ++ rest) = print printed ++ rest := by
  obtain ⟨c, behind, hcons, hc, -⟩ := exists_print_cons printed
  rw [hcons]
  exact skipSpace_cons hc _

theorem stops_cons {c : CodePoint} (hc : c = ',' ∨ c = ']' ∨ c = '\x7d') (rest : Text) :
    Stops (c :: rest) := by
  intro d hd
  rwa [← Option.some.inj hd]

/-! ## Arrays -/

theorem renderItems_singleton (item : Json) : renderItems .json [item] = print item := by
  rw [renderItems]
  rfl

theorem renderItems_cons_cons (item next : Json) (items : List Json) :
    renderItems .json (item :: next :: items) =
      print item ++ CodePoint.char ',' :: CodePoint.char ' ' ::
        renderItems .json (next :: items) := by
  rw [renderItems, List.append_assoc]
  · rfl
  · simp

theorem exists_renderItems_cons (item : Json) (items : List Json) :
    ∃ behind, renderItems .json (item :: items) = print item ++ behind := by
  cases items with
  | nil => exact ⟨[], by rw [renderItems_singleton, List.append_nil]⟩
  | cons next items => exact ⟨_, renderItems_cons_cons item next items⟩

theorem skipSpace_renderItems (item : Json) (items : List Json) (rest : Text) :
    skipSpace (CodePoint.char ' ' :: (renderItems .json (item :: items) ++ rest)) =
      renderItems .json (item :: items) ++ rest := by
  obtain ⟨behind, hbehind⟩ := exists_renderItems_cons item items
  rw [hbehind, List.append_assoc]
  exact skipSpace_print item _

section Items

variable {room count : Nat} {item read : Json} (hread : ReadsAs room (print item) read)
  (hcount : 2 * (print item).length ≤ count)

include hread hcount

theorem ReadsAs.items_singleton (rest : Text) :
    Json.items room (count + 1) (renderItems .json [item] ++ CodePoint.char ']' :: rest) =
      .ok ([read], rest) := by
  have hvalue := hread count (CodePoint.char ']' :: rest) hcount (stops_cons (by simp) rest)
  rw [renderItems_singleton, Json.items]
  simp only [hvalue, skipSpace_cons (c := ']') rfl]

theorem ReadsAs.items_cons_cons (next : Json) (items : List Json) (rest : Text) :
    Json.items room (count + 1)
        (renderItems .json (item :: next :: items) ++ CodePoint.char ']' :: rest) =
      (Json.items room count (renderItems .json (next :: items) ++ CodePoint.char ']' :: rest)).map
        fun (others, left) => (read :: others, left) := by
  have hvalue := hread count (CodePoint.char ',' :: CodePoint.char ' ' ::
    (renderItems .json (next :: items) ++ CodePoint.char ']' :: rest)) hcount
    (stops_cons (by simp) _)
  rw [renderItems_cons_cons, Json.items]
  simp only [List.append_assoc, List.cons_append, hvalue, skipSpace_cons (c := ',') rfl,
    skipSpace_renderItems]

end Items

theorem items_renderItems
    {room : Nat} {items reads : List Json}
    (hreads : List.Forall₂ (fun item read => ReadsAs room (print item) read) items reads)
    (hne : items ≠ []) {count : Nat} (hcount : 2 * (renderItems .json items).length < count)
    (rest : Text) :
    Json.items room count (renderItems .json items ++ CodePoint.char ']' :: rest) =
      .ok (reads, rest) := by
  induction hreads generalizing count with
  | nil => exact absurd rfl hne
  | @cons item read items reads hread hreads ih =>
      obtain ⟨n, rfl⟩ : ∃ n, count = n + 1 := ⟨count - 1, by omega⟩
      cases hreads with
      | nil =>
          rw [renderItems_singleton] at hcount
          exact hread.items_singleton (by omega) rest
      | @cons next read' items reads hnext hreads =>
          rw [renderItems_cons_cons, List.length_append, List.length_cons, List.length_cons]
            at hcount
          rw [hread.items_cons_cons (by omega), ih (by simp) (by omega)]
          rfl

theorem length_print_array (items : List Json) :
    (print (.array items)).length = (renderItems .json items).length + 2 := by
  rw [print, render, List.length_append, List.length_append]
  change 1 + _ + 1 = _
  omega

theorem value_print_array (room count : Nat) (items : List Json) (rest : Text) :
    value room (count + 1) (print (.array items) ++ rest) =
      if room = 0 then .error .tooDeep
      else if items = [] then .ok (.array [], rest)
      else
        (Json.items (room - 1) count (renderItems .json items ++ CodePoint.char ']' :: rest)).map
          fun (items, left) => (.array items, left) := by
  have hprint : print (.array items) ++ rest =
      CodePoint.char '[' :: (renderItems .json items ++ CodePoint.char ']' :: rest) := by
    rw [print, render, List.append_assoc, List.append_assoc]
    rfl
  rw [hprint, value]
  congr 1
  cases items with
  | nil =>
      rw [renderItems, List.nil_append, skipSpace_cons rfl]
      rfl
  | cons item items =>
      obtain ⟨behind, hbehind⟩ := exists_renderItems_cons item items
      obtain ⟨c, others, hcons, hspace, hbracket⟩ := exists_print_cons item
      rw [hbehind, hcons, List.cons_append, List.cons_append, skipSpace_cons hspace,
        if_neg (List.cons_ne_nil item items)]
      split
      · rename_i heq
        exact absurd (List.cons.inj heq).1 hbracket
      · rfl

theorem ReadsAs.array
    {room : Nat} {items reads : List Json}
    (hreads : List.Forall₂ (fun item read => ReadsAs room (print item) read) items reads) :
    ReadsAs (room + 1) (print (.array items)) (.array reads) := by
  intro count rest hcount hrest
  rw [length_print_array] at hcount
  obtain ⟨n, rfl⟩ : ∃ n, count = n + 1 := ⟨count - 1, by omega⟩
  rw [value_print_array, if_neg (Nat.succ_ne_zero room), Nat.add_sub_cancel]
  split
  · rename_i hnil
    subst hnil
    cases hreads
    rfl
  · rename_i hne
    rw [items_renderItems hreads hne (by omega)]
    rfl

/-! ## Objects -/

theorem pair_render (room count : Nat) (key : Text) (printed : Json) (rest : Text) :
    pair room (count + 1) (printString key ++ CodePoint.char ':' :: CodePoint.char ' ' ::
        (print printed ++ rest)) =
      (value room count (print printed ++ rest)).map fun (value, left) =>
        ((Text.paired key, value), left) := by
  have hspace : skipSpace (CodePoint.char ' ' :: (print printed ++ rest)) =
      print printed ++ rest :=
    skipSpace_print printed rest
  rw [printString_append, pair, stringBody?_flatMap_printChar]
  simp only [skipSpace_cons (c := ':') rfl, hspace]

theorem ReadsAs.pair_render
    {room : Nat} {printed read : Json} (hread : ReadsAs room (print printed) read) {count : Nat}
    (hcount : 2 * (print printed).length < count) {rest : Text} (hrest : Stops rest) (key : Text) :
    pair room count (printString key ++ CodePoint.char ':' :: CodePoint.char ' ' ::
        (print printed ++ rest)) =
      .ok ((Text.paired key, read), rest) := by
  obtain ⟨n, rfl⟩ : ∃ n, count = n + 1 := ⟨count - 1, by omega⟩
  rw [Json.pair_render, hread n rest (by omega) hrest]
  rfl

theorem renderMembers_singleton (key : Text) (value : Json) :
    renderMembers .json [(key, value)] =
      printString key ++ CodePoint.char ':' :: CodePoint.char ' ' :: print value := by
  rw [renderMembers, List.append_assoc]
  rfl

theorem renderMembers_cons_cons
    (key : Text) (value : Json) (next : Text × Json) (members : List (Text × Json)) :
    renderMembers .json ((key, value) :: next :: members) =
      printString key ++ CodePoint.char ':' :: CodePoint.char ' ' ::
        (print value ++ CodePoint.char ',' :: CodePoint.char ' ' ::
          renderMembers .json (next :: members)) := by
  rw [renderMembers]
  · simp only [List.append_assoc]
    rfl
  · simp

theorem exists_renderMembers_cons (member : Text × Json) (members : List (Text × Json)) :
    ∃ behind, renderMembers .json (member :: members) = CodePoint.char '"' :: behind := by
  obtain ⟨key, value⟩ := member
  cases members with
  | nil => exact ⟨_, by rw [renderMembers_singleton, printString, List.cons_append]⟩
  | cons next members => exact ⟨_, by rw [renderMembers_cons_cons, printString, List.cons_append]⟩

section Members

variable {room count : Nat} {printed read : Json} (hread : ReadsAs room (print printed) read)
  (hcount : 2 * (print printed).length < count)

include hread hcount

theorem ReadsAs.members_singleton (key rest : Text) :
    Json.members room (count + 1)
        (renderMembers .json [(key, printed)] ++ CodePoint.char '\x7d' :: rest) =
      .ok ([(Text.paired key, read)], rest) := by
  have hpair := hread.pair_render hcount (stops_cons (c := '\x7d') (by simp) rest) key
  rw [renderMembers_singleton, Json.members]
  simp only [List.append_assoc, List.cons_append, hpair, skipSpace_cons (c := '\x7d') rfl]

theorem ReadsAs.members_cons_cons
    (key : Text) (next : Text × Json) (members : List (Text × Json)) (rest : Text) :
    Json.members room (count + 1)
        (renderMembers .json ((key, printed) :: next :: members) ++
          CodePoint.char '\x7d' :: rest) =
      (Json.members room count
        (renderMembers .json (next :: members) ++ CodePoint.char '\x7d' :: rest)).map
        fun (others, left) => ((Text.paired key, read) :: others, left) := by
  have hskip : skipSpace (CodePoint.char ' ' ::
      (renderMembers .json (next :: members) ++ CodePoint.char '\x7d' :: rest)) =
        renderMembers .json (next :: members) ++ CodePoint.char '\x7d' :: rest := by
    obtain ⟨behind, hbehind⟩ := exists_renderMembers_cons next members
    rw [hbehind]
    rfl
  have hpair := hread.pair_render hcount (stops_cons (c := ',') (by simp) (CodePoint.char ' ' ::
    (renderMembers .json (next :: members) ++ CodePoint.char '\x7d' :: rest))) key
  rw [renderMembers_cons_cons, Json.members]
  simp only [List.append_assoc, List.cons_append, hpair, skipSpace_cons (c := ',') rfl, hskip]

end Members

theorem members_renderMembers
    {room : Nat} {members reads : List (Text × Json)}
    (hreads : List.Forall₂ (MemberReadsAs room) members reads)
    (hne : members ≠ []) {count : Nat}
    (hcount : 2 * (renderMembers .json members).length < count) (rest : Text) :
    Json.members room count (renderMembers .json members ++ CodePoint.char '\x7d' :: rest) =
      .ok (reads, rest) := by
  induction hreads generalizing count with
  | nil => exact absurd rfl hne
  | @cons member read members reads hread hreads ih =>
      obtain ⟨key, value⟩ := member
      obtain ⟨readKey, readValue⟩ := read
      obtain ⟨rfl, hvalue⟩ := hread
      simp only at hvalue
      obtain ⟨n, rfl⟩ : ∃ n, count = n + 1 := ⟨count - 1, by omega⟩
      cases hreads with
      | nil =>
          rw [renderMembers_singleton] at hcount
          simp only [List.length_append, List.length_cons] at hcount
          exact hvalue.members_singleton (by omega) key rest
      | @cons next read' members reads hnext hreads =>
          rw [renderMembers_cons_cons] at hcount
          simp only [List.length_append, List.length_cons] at hcount
          rw [hvalue.members_cons_cons (by omega), ih (by simp) (by omega)]
          rfl

theorem length_print_object (members : List (Text × Json)) :
    (print (.object members)).length = (renderMembers .json members).length + 2 := by
  rw [print, render, List.length_append, List.length_append]
  change 1 + _ + 1 = _
  omega

theorem value_print_object
    (room count : Nat) (members : List (Text × Json)) (rest : Text) :
    value room (count + 1) (print (.object members) ++ rest) =
      if room = 0 then .error .tooDeep
      else if members = [] then .ok (.object [], rest)
      else
        (Json.members (room - 1) count
          (renderMembers .json members ++ CodePoint.char '\x7d' :: rest)).map
          fun (members, left) => (.object (ofMembers members), left) := by
  have hprint : print (.object members) ++ rest = CodePoint.char '\x7b' ::
      (renderMembers .json members ++ CodePoint.char '\x7d' :: rest) := by
    rw [print, render, List.append_assoc, List.append_assoc]
    rfl
  rw [hprint, value]
  congr 1
  cases members with
  | nil =>
      rw [renderMembers, List.nil_append, skipSpace_cons rfl]
      rfl
  | cons member members =>
      obtain ⟨behind, hbehind⟩ := exists_renderMembers_cons member members
      rw [hbehind, List.cons_append, skipSpace_cons rfl,
        if_neg (List.cons_ne_nil member members)]
      split
      · rename_i heq
        simp at heq
      · rfl

theorem ReadsAs.object
    {room : Nat} {members reads : List (Text × Json)}
    (hreads : List.Forall₂ (MemberReadsAs room) members reads) :
    ReadsAs (room + 1) (print (.object members)) (.object (ofMembers reads)) := by
  intro count rest hcount hrest
  rw [length_print_object] at hcount
  obtain ⟨n, rfl⟩ : ∃ n, count = n + 1 := ⟨count - 1, by omega⟩
  rw [value_print_object, if_neg (Nat.succ_ne_zero room), Nat.add_sub_cancel]
  split
  · rename_i hnil
    subst hnil
    cases hreads
    rfl
  · rename_i hne
    rw [members_renderMembers hreads hne (by omega)]
    rfl

/-! ## Whole values -/

theorem readsAs_string (room : Nat) (value : Text) :
    ReadsAs room (print (.string value)) (.string (Text.paired value)) :=
  readsAs_of_scalar? (fun rest _ => scalar?_printString value rest) room

theorem readsAs_int {n : Int} (hshort : Text.isTooLong n = false) (room : Nat) :
    ReadsAs room (print (.int n)) (.int n) := by
  apply readsAs_of_scalar?
  intro rest hrest
  rw [print, render, scalar?_ofInt n hrest, hshort, if_neg Bool.false_ne_true]

/-- A value within the limits of the reader is printed as a text that is read. -/
theorem Fits.exists_readsAs {room : Nat} {value : Json} (h : Fits room value) :
    ∃ read, ReadsAs room (print value) read := by
  induction h with
  | @null room => exact ⟨.null, readsAs_of_scalar? (fun _ _ => rfl) room⟩
  | @bool room value =>
      refine ⟨.bool value, readsAs_of_scalar? (fun _ _ => ?_) room⟩
      cases value <;> rfl
  | @int room n hshort => exact ⟨.int n, readsAs_int hshort room⟩
  | @double room value =>
      obtain ⟨read, hread⟩ := exists_scalar?_toText value
      exact ⟨.double read, readsAs_of_scalar? hread room⟩
  | @string room value => exact ⟨_, readsAs_string room value⟩
  | array _ ih =>
      obtain ⟨reads, hreads⟩ := Forall₂.exists_of_forall ih
      exact ⟨_, .array hreads⟩
  | @object room members _ ih =>
      have hmembers : ∀ member ∈ members, ∃ read, MemberReadsAs room member read := by
        intro member hmember
        obtain ⟨read, hread⟩ := ih member hmember
        exact ⟨(Text.paired member.1, read), rfl, hread⟩
      obtain ⟨reads, hreads⟩ := Forall₂.exists_of_forall hmembers
      exact ⟨_, .object hreads⟩

theorem Fits.exists_readsAs_array {room : Nat} {items : List Json} (h : Fits room (.array items)) :
    ∃ reads, ReadsAs room (print (.array items)) (.array reads) := by
  cases h with
  | array hitems =>
      obtain ⟨reads, hreads⟩ := Forall₂.exists_of_forall fun item hitem =>
        (hitems item hitem).exists_readsAs
      exact ⟨reads, .array hreads⟩

theorem parse_print {printed read : Json} (h : ReadsAs maxDepth (print printed) read) :
    parse (print printed) = .ok read := by
  have hskip := skipSpace_print printed []
  have hread := h (2 * (print printed).length + 2) [] (by omega) (by simp [Stops])
  rw [List.append_nil] at hskip hread
  rw [parse, hskip, hread]
  rfl

end Json

end UrlRebase
