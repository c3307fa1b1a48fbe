import UrlRebase.Proofs.PrintedValues

/-!
# Values that are read and read again

A value that was read is within the limits of the reader, and no value beyond them is read from
what is printed of it.  So what was read once is read again after it was printed, and a
printed value is read exactly if it is within the limits.
-/

namespace UrlRebase

theorem Except.map_eq_ok
    {ε α β : Type} {f : α → β} {result : Except ε α} {b : β} :
    result.map f = .ok b ↔ ∃ a, result = .ok a ∧ f a = b := by
  cases result <;> simp [Except.map]

theorem Except.map_fst_eq_ok
    {ε α β γ : Type} {f : α → β} {result : Except ε (α × γ)} {b : β} {rest : γ} :
    (result.map fun (a, left) => (f a, left)) = .ok (b, rest) ↔
      ∃ a, result = .ok (a, rest) ∧ f a = b := by
  rw [map_eq_ok]
  constructor
  · rintro ⟨⟨a, left⟩, hresult, hread⟩
    obtain ⟨rfl, rfl⟩ := Prod.mk.inj hread
    exact ⟨a, hresult, rfl⟩
  · rintro ⟨a, hresult, rfl⟩
    exact ⟨(a, rest), hresult, rfl⟩

namespace Json

/-! ## Values that were read -/

theorem mem_put
    {key : Text} {value : Json} {members : List (Text × Json)} {member : Text × Json}
    (h : member ∈ put key value members) : member = (key, value) ∨ member ∈ members := by
  induction members with
  | nil => exact .inl (List.mem_singleton.mp h)
  | cons first rest ih =>
      unfold put at h
      split at h
      · rcases List.mem_cons.mp h with rfl | h
        · exact .inl rfl
        · exact .inr (List.mem_cons_of_mem _ h)
      · rcases List.mem_cons.mp h with rfl | h
        · exact .inr List.mem_cons_self
        · exact (ih h).imp_right (List.mem_cons_of_mem _)

theorem mem_foldl_put
    {kept members : List (Text × Json)} {member : Text × Json}
    (h : member ∈ members.foldl (fun kept member => put member.1 member.2 kept) kept) :
    member ∈ kept ∨ member ∈ members := by
  induction members generalizing kept with
  | nil => exact .inl h
  | cons first rest ih =>
      rcases ih h with hput | hrest
      · rcases mem_put hput with rfl | hkept
        · exact .inr List.mem_cons_self
        · exact .inl hkept
      · exact .inr (List.mem_cons_of_mem first hrest)

theorem mem_of_mem_ofMembers
    {members : List (Text × Json)} {member : Text × Json} (h : member ∈ ofMembers members) :
    member ∈ members :=
  (mem_foldl_put h).resolve_left List.not_mem_nil

theorem fits_of_number?
    {negative : Bool} {text rest : Text} {value : Json}
    (h : number? negative text = some (value, rest)) (room : Nat) : Fits room value := by
  unfold number? at h
  split at h
  rename_i whole behind hwhole
  have hdigit : ∀ c ∈ whole, c.isDigit = true := by
    split at hwhole
    · obtain ⟨rfl, -⟩ := Prod.mk.inj hwhole
      simp [CodePoint.isDigit]
    · rw [digits, List.span_eq_takeWhile_dropWhile] at hwhole
      obtain ⟨rfl, -⟩ := Prod.mk.inj hwhole
      exact fun c hc => List.mem_takeWhile_imp hc
  split at h
  · simp at h
  rename_i hne
  simp only at h
  split at h
  · split at h
    · simp at h
    · rename_i hshort
      obtain ⟨rfl, -⟩ := Prod.mk.inj (Option.some.inj h)
      exact .int (isTooLong_decimalValue hne hdigit (by omega) negative)
  · obtain ⟨rfl, -⟩ := Prod.mk.inj (Option.some.inj h)
    exact .double

theorem fits_of_scalar?
    {text rest : Text} {value : Json} (h : scalar? text = some (value, rest)) (room : Nat) :
    Fits room value := by
  unfold scalar? at h
  split at h
  · obtain ⟨⟨read, left⟩, -, hread⟩ := Option.map_eq_some_iff.mp h
    obtain ⟨rfl, -⟩ := Prod.mk.inj hread
    exact .string
  · split at h
    · obtain ⟨rfl, -⟩ := Prod.mk.inj (Option.some.inj h)
      exact .double
    · exact fits_of_number? h room
  · split at h
    · obtain ⟨rfl, -⟩ := Prod.mk.inj (Option.some.inj h)
      exact .null
    · obtain ⟨rfl, -⟩ := Prod.mk.inj (Option.some.inj h)
      exact .bool
    · obtain ⟨rfl, -⟩ := Prod.mk.inj (Option.some.inj h)
      exact .bool
    · obtain ⟨rfl, -⟩ := Prod.mk.inj (Option.some.inj h)
      exact .double
    · obtain ⟨rfl, -⟩ := Prod.mk.inj (Option.some.inj h)
      exact .double
    · exact fits_of_number? h room

section Steps

variable {room count : Nat} {text rest : Text}

theorem value_cases {read : Json} (h : value room (count + 1) text = .ok (read, rest)) :
    scalar? text = some (read, rest) ∨
      ∃ inner, room = inner + 1 ∧
        ((∃ found, read = .array found ∧
            (found = [] ∨ ∃ behind, items inner count behind = .ok (found, rest))) ∨
          ∃ found, read = .object (ofMembers found) ∧
            (found = [] ∨ ∃ behind, members inner count behind = .ok (found, rest))) := by
  unfold value at h
  split at h
  · simp at h
  · rename_i n _ hn
    obtain rfl : count = n := Nat.succ.inj hn
    split at h
    · simp at h
    rename_i hroom
    obtain ⟨inner, rfl⟩ := Nat.exists_eq_add_one_of_ne_zero hroom
    refine .inr ⟨inner, rfl, .inl ?_⟩
    split at h
    · obtain ⟨rfl, -⟩ := Prod.mk.inj (Except.ok.inj h)
      exact ⟨[], rfl, .inl rfl⟩
    · obtain ⟨found, hfound, rfl⟩ := Except.map_fst_eq_ok.mp h
      exact ⟨found, rfl, .inr ⟨_, hfound⟩⟩
  · rename_i n _ hn
    obtain rfl : count = n := Nat.succ.inj hn
    split at h
    · simp at h
    rename_i hroom
    obtain ⟨inner, rfl⟩ := Nat.exists_eq_add_one_of_ne_zero hroom
    refine .inr ⟨inner, rfl, .inr ?_⟩
    split at h
    · obtain ⟨rfl, -⟩ := Prod.mk.inj (Except.ok.inj h)
      exact ⟨[], rfl, .inl rfl⟩
    · obtain ⟨found, hfound, rfl⟩ :=
        (Except.map_fst_eq_ok (f := fun found => object (ofMembers found))).mp h
      exact ⟨found, rfl, .inr ⟨_, hfound⟩⟩
  · rename_i text _ _ _ _ _ _
    cases hscalar : scalar? text with
    | none => simp [hscalar] at h
    | some result =>
        rw [hscalar] at h
        exact .inl (congrArg some (Except.ok.inj h))

theorem items_cases {reads : List Json} (h : items room (count + 1) text = .ok (reads, rest)) :
    ∃ first behind others, reads = first :: others ∧ value room count text = .ok (first, behind) ∧
      (others = [] ∨ ∃ more, items room count more = .ok (others, rest)) := by
  unfold items at h
  split at h
  · simp at h
  rename_i first behind hfirst
  split at h
  · obtain ⟨rfl, -⟩ := Prod.mk.inj (Except.ok.inj h)
    exact ⟨first, behind, [], rfl, hfirst, .inl rfl⟩
  · obtain ⟨others, hothers, rfl⟩ := Except.map_fst_eq_ok.mp h
    exact ⟨first, behind, others, rfl, hfirst, .inr ⟨_, hothers⟩⟩
  · simp at h

theorem members_cases
    {reads : List (Text × Json)} (h : members room (count + 1) text = .ok (reads, rest)) :
    ∃ first behind others, reads = first :: others ∧ pair room count text = .ok (first, behind) ∧
      (others = [] ∨ ∃ more, members room count more = .ok (others, rest)) := by
  unfold members at h
  split at h
  · simp at h
  rename_i first behind hfirst
  split at h
  · obtain ⟨rfl, -⟩ := Prod.mk.inj (Except.ok.inj h)
    exact ⟨first, behind, [], rfl, hfirst, .inl rfl⟩
  · obtain ⟨others, hothers, rfl⟩ := Except.map_fst_eq_ok.mp h
    exact ⟨first, behind, others, rfl, hfirst, .inr ⟨_, hothers⟩⟩
  · simp at h

theorem pair_cases {read : Text × Json} (h : pair room (count + 1) text = .ok (read, rest)) :
    ∃ behind, value room count behind = .ok (read.2, rest) := by
  unfold pair at h
  split at h
  · simp at h
  · rename_i n _ hn
    obtain rfl : count = n := Nat.succ.inj hn
    split at h
    · simp at h
    split at h
    · obtain ⟨member, hmember, rfl⟩ := (Except.map_fst_eq_ok (f := fun member => (_, member))).mp h
      exact ⟨_, hmember⟩
    · simp at h
  · simp at h

end Steps

theorem fits_of_value (count : Nat) :
    (∀ room text read rest, value room count text = .ok (read, rest) → Fits room read) ∧
    (∀ room text reads rest, items room count text = .ok (reads, rest) →
      ∀ read ∈ reads, Fits room read) ∧
    (∀ room text reads rest, members room count text = .ok (reads, rest) →
      ∀ read ∈ reads, Fits room read.2) ∧
    (∀ room text read rest, pair room count text = .ok (read, rest) → Fits room read.2) := by
  induction count with
  | zero => simp [value, items, members, pair]
  | succ count ih =>
      obtain ⟨ihValue, ihItems, ihMembers, ihPair⟩ := ih
      refine ⟨?_, ?_, ?_, ?_⟩
      · intro room text read rest h
        rcases value_cases h with
          hscalar | ⟨inner, rfl, ⟨found, rfl, hfound⟩ | ⟨found, rfl, hfound⟩⟩
        · exact fits_of_scalar? hscalar room
        · rcases hfound with rfl | ⟨behind, hfound⟩
          · exact .array (by simp)
          · exact .array (ihItems inner behind found rest hfound)
        · rcases hfound with rfl | ⟨behind, hfound⟩
          · exact .object (by simp [ofMembers])
          · exact .object fun member hmember => ihMembers inner behind found rest hfound member
              (mem_of_mem_ofMembers hmember)
      · intro room text reads rest h
        obtain ⟨first, behind, others, rfl, hfirst, hothers⟩ := items_cases h
        refine List.forall_mem_cons.mpr ⟨ihValue room text first behind hfirst, ?_⟩
        rcases hothers with rfl | ⟨more, hothers⟩
        · simp
        · exact ihItems room more others rest hothers
      · intro room text reads rest h
        obtain ⟨first, behind, others, rfl, hfirst, hothers⟩ := members_cases h
        refine List.forall_mem_cons.mpr ⟨ihPair room text first behind hfirst, ?_⟩
        rcases hothers with rfl | ⟨more, hothers⟩
        · simp
        · exact ihMembers room more others rest hothers
      · intro room text read rest h
        obtain ⟨behind, hvalue⟩ := pair_cases h
        exact ihValue room behind read.2 rest hvalue

/-- A value that was read is within the limits of the reader. -/
theorem fits_of_parse {text : Text} {read : Json} (h : parse text = .ok read) :
    Fits maxDepth read := by
  unfold parse at h
  split at h
  · simp at h
  · rename_i value rest hvalue
    split at h
    · obtain rfl := Except.ok.inj h
      exact (fits_of_value _).1 _ _ _ _ hvalue
    · simp at h

/-! ## Values beyond the limits -/

/-- Whether a value is within a limit if what is printed of it is read with this limit. -/
def FitsIfRead (printed : Json) : Prop :=
  ∀ {room count : Nat} {rest left : Text} {read : Json},
    2 * (print printed).length ≤ count → Stops rest →
      value room count (print printed ++ rest) = .ok (read, left) → printed.Fits room

theorem fitsIfRead_int (n : Int) : FitsIfRead (.int n) := by
  intro room count rest left read hcount hrest h
  cases hlong : Text.isTooLong n with
  | false => exact .int hlong
  | true =>
      obtain ⟨c, others, hcons, -⟩ := exists_ofInt_cons n
      have hprint : print (.int n) = Text.ofInt n := rfl
      have hlength := congrArg List.length hcons
      rw [List.length_cons] at hlength
      rw [hprint] at hcount h
      obtain ⟨m, rfl⟩ : ∃ m, count = m + 1 := ⟨count - 1, by omega⟩
      have hnone : scalar? (Text.ofInt n ++ rest) = none := by
        rw [scalar?_ofInt n hrest, hlong, if_pos rfl]
      have hopen {d : CodePoint} (hminus : d ≠ '-') (hdigit : d.isDigit = false)
          (behind : Text) : Text.ofInt n ++ rest ≠ d :: behind := by
        rw [hcons]
        exact fun heq => ne_of_ofInt_cons hcons hminus hdigit (List.cons.inj heq).1
      rw [value_of_scalar?_eq_none hnone (hopen (by decide) rfl) (hopen (by decide) rfl)] at h
      simp at h

theorem forall_fits_of_items
    {items : List Json} (hitems : ∀ item ∈ items, FitsIfRead item) {room count : Nat}
    {rest left : Text} {reads : List Json} (hcount : 2 * (renderItems .json items).length < count)
    (h : Json.items room count (renderItems .json items ++ CodePoint.char ']' :: rest) =
      .ok (reads, left)) :
    ∀ item ∈ items, item.Fits room := by
  induction items generalizing count left reads with
  | nil => simp
  | cons item items ih =>
      obtain ⟨n, rfl⟩ : ∃ n, count = n + 1 := ⟨count - 1, by omega⟩
      obtain ⟨hitem, hrest⟩ := List.forall_mem_cons.mp hitems
      obtain ⟨first, behind, -, -, hfirst, -⟩ := items_cases h
      rw [List.forall_mem_cons]
      cases items with
      | nil =>
          rw [renderItems_singleton] at hcount hfirst
          exact ⟨hitem (by omega) (stops_cons (by simp) rest) hfirst, by simp⟩
      | cons next items =>
          rw [renderItems_cons_cons, List.length_append, List.length_cons, List.length_cons]
            at hcount
          rw [renderItems_cons_cons, List.append_assoc] at hfirst
          have hlength : 2 * (print item).length ≤ n := by omega
          have hfits := hitem hlength (stops_cons (c := ',') (by simp) _) hfirst
          obtain ⟨read, hread⟩ := hfits.exists_readsAs
          rw [hread.items_cons_cons hlength] at h
          obtain ⟨⟨others, last⟩, hothers, -⟩ := Except.map_eq_ok.mp h
          have hlengths : 2 * (renderItems .json (next :: items)).length < n := by omega
          exact ⟨hfits, ih hrest hlengths hothers⟩

theorem forall_fits_of_members
    {members : List (Text × Json)} (hmembers : ∀ member ∈ members, FitsIfRead member.2)
    {room count : Nat} {rest left : Text} {reads : List (Text × Json)}
    (hcount : 2 * (renderMembers .json members).length < count)
    (h : Json.members room count
      (renderMembers .json members ++ CodePoint.char '\x7d' :: rest) = .ok (reads, left)) :
    ∀ member ∈ members, member.2.Fits room := by
  induction members generalizing count left reads with
  | nil => simp
  | cons member members ih =>
      obtain ⟨key, printed⟩ := member
      obtain ⟨opening, hopening⟩ := exists_renderMembers_cons (key, printed) members
      have hlength := congrArg List.length hopening
      rw [List.length_cons] at hlength
      obtain ⟨n, rfl⟩ : ∃ n, count = n + 2 := ⟨count - 2, by omega⟩
      obtain ⟨hmember, hrest⟩ := List.forall_mem_cons.mp hmembers
      simp only at hmember
      obtain ⟨first, behind, -, -, hfirst, -⟩ := members_cases h
      rw [List.forall_mem_cons]
      cases members with
      | nil =>
          rw [renderMembers_singleton] at hcount hfirst
          simp only [List.length_append, List.length_cons] at hcount
          simp only [List.append_assoc, List.cons_append] at hfirst
          rw [pair_render] at hfirst
          obtain ⟨⟨value, last⟩, hvalue, -⟩ := Except.map_eq_ok.mp hfirst
          exact ⟨hmember (by omega) (stops_cons (by simp) rest) hvalue, by simp⟩
      | cons next members =>
          rw [renderMembers_cons_cons] at hcount hfirst
          simp only [List.length_append, List.length_cons] at hcount
          simp only [List.append_assoc, List.cons_append] at hfirst
          rw [pair_render] at hfirst
          obtain ⟨⟨value, last⟩, hvalue, -⟩ := Except.map_eq_ok.mp hfirst
          have hcount' : 2 * (print printed).length < n + 1 := by omega
          have hfits := hmember (by omega) (stops_cons (c := ',') (by simp) _) hvalue
          obtain ⟨read, hread⟩ := hfits.exists_readsAs
          rw [hread.members_cons_cons hcount'] at h
          obtain ⟨⟨others, after⟩, hothers, -⟩ := Except.map_eq_ok.mp h
          have hlengths : 2 * (renderMembers .json (next :: members)).length < n + 1 := by omega
          exact ⟨hfits, ih hrest hlengths hothers⟩

theorem fitsIfRead (printed : Json) : FitsIfRead printed := by
  cases printed with
  | null => exact fun _ _ _ => .null
  | bool value => exact fun _ _ _ => .bool
  | int n => exact fitsIfRead_int n
  | double value => exact fun _ _ _ => .double
  | string value => exact fun _ _ _ => .string
  | array items =>
      have hitems : ∀ item ∈ items, FitsIfRead item := fun item hitem => fitsIfRead item
      intro room count rest left read hcount hrest h
      rw [length_print_array] at hcount
      obtain ⟨n, rfl⟩ : ∃ n, count = n + 1 := ⟨count - 1, by omega⟩
      rw [value_print_array] at h
      split at h
      · simp at h
      rename_i hroom
      obtain ⟨inner, rfl⟩ := Nat.exists_eq_add_one_of_ne_zero hroom
      split at h
      · rename_i hnil
        exact .array (by simp [hnil])
      · obtain ⟨⟨reads, behind⟩, hreads, -⟩ := Except.map_eq_ok.mp h
        exact .array (forall_fits_of_items hitems (by omega) hreads)
  | object members =>
      have hmembers : ∀ member ∈ members, FitsIfRead member.2 := fun member hmember =>
        fitsIfRead member.2
      intro room count rest left read hcount hrest h
      rw [length_print_object] at hcount
      obtain ⟨n, rfl⟩ : ∃ n, count = n + 1 := ⟨count - 1, by omega⟩
      rw [value_print_object] at h
      split at h
      · simp at h
      rename_i hroom
      obtain ⟨inner, rfl⟩ := Nat.exists_eq_add_one_of_ne_zero hroom
      split at h
      · rename_i hnil
        exact .object (by simp [hnil])
      · obtain ⟨⟨reads, behind⟩, hreads, -⟩ := Except.map_eq_ok.mp h
        exact .object (forall_fits_of_members hmembers (by omega) hreads)
termination_by sizeOf printed
decreasing_by
  · have hlt := List.sizeOf_lt_of_mem hitem
    simp only [array.sizeOf_spec]
    omega
  · have hlt := List.sizeOf_lt_of_mem hmember
    obtain ⟨key, value⟩ := member
    simp only [object.sizeOf_spec, Prod.mk.sizeOf_spec] at *
    omega

/-- What is printed of a value is read exactly if the value is within the limits of the reader. -/
theorem exists_parse_print_iff (printed : Json) :
    (∃ read, parse (print printed) = .ok read) ↔ printed.Fits maxDepth := by
  constructor
  · rintro ⟨read, hread⟩
    have hskip := skipSpace_print printed []
    rw [List.append_nil] at hskip
    unfold parse at hread
    rw [hskip] at hread
    split at hread
    · simp at hread
    · rename_i value rest hvalue
      rw [← List.append_nil (print printed)] at hvalue
      exact fitsIfRead printed (by simp) (by simp [Stops]) hvalue
  · intro hfits
    obtain ⟨read, hread⟩ := hfits.exists_readsAs
    exact ⟨read, parse_print hread⟩

end Json

end UrlRebase
