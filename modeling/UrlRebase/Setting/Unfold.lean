import UrlRebase.Setting.Basic

/-!
# Settings inside settings

A setting that holds itself is written as a finite one with a loop inside.  Whoever steps into
it finds the whole setting in the place of the loop, so that every setting that is taken out
of another one is complete.
-/

namespace UrlRebase.Setting

mutual

/-- Puts a whole setting in the place of its loops.  What has the same mark has loops of its
own. -/
def fill (mark : Nat) (whole : Setting) : Setting → Setting
  | .loop other => if other = mark then whole else .loop other
  | .list other items =>
      .list other (if other = some mark then items else fillItems mark whole items)
  | .pair first second => .pair (fill mark whole first) (fill mark whole second)
  | .table other members =>
      .table other (if other = some mark then members else fillMembers mark whole members)
  | value => value

/-- Puts a whole setting in the place of its loops in some items. -/
def fillItems (mark : Nat) (whole : Setting) : List Setting → List Setting
  | [] => []
  | item :: rest => fill mark whole item :: fillItems mark whole rest

/-- Puts a whole setting in the place of its loops in some members; a key has none. -/
def fillMembers (mark : Nat) (whole : Setting) :
    List (Setting × Setting) → List (Setting × Setting)
  | [] => []
  | (key, value) :: rest => (key, fill mark whole value) :: fillMembers mark whole rest

end

theorem length_fillItems (mark : Nat) (whole : Setting) (items : List Setting) :
    (fillItems mark whole items).length = items.length := by
  induction items with
  | nil => simp [fillItems]
  | cons item rest ih => simp [fillItems, ih]

theorem map_fst_fillMembers (mark : Nat) (whole : Setting)
    (members : List (Setting × Setting)) :
    (fillMembers mark whole members).map Prod.fst = members.map Prod.fst := by
  induction members with
  | nil => simp [fillMembers]
  | cons member rest ih => simp [fillMembers, ih]

/-- The complete items of a list. -/
def itemsOf (mark : Mark) (items : List Setting) : List Setting :=
  match mark with
  | none => items
  | some id => fillItems id (.list mark items) items

/-- The complete members of a table. -/
def membersOf (mark : Mark) (members : List (Setting × Setting)) : List (Setting × Setting) :=
  match mark with
  | none => members
  | some id => fillMembers id (.table mark members) members

def members? : Setting → Option (List (Setting × Setting))
  | .table mark members => some (membersOf mark members)
  | _ => none

/-- The settings that a sequence steps through: the items of a list, a pair or a set, the
keys of a table, the characters of a text, and the numbers of bytes. -/
def elements? : Setting → Option (List Setting)
  | .list mark items => some (itemsOf mark items)
  | .set _ items => some items
  | .pair first second => some [first, second]
  | .table _ members => some (members.map Prod.fst)
  | .text value => some (value.map fun c => .text [c])
  | .bytes value => some (value.map fun byte => .int byte.toNat)
  | _ => none

end UrlRebase.Setting
