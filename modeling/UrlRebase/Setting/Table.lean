import UrlRebase.Setting.Unfold

/-!
# Tables

The members of a table in order, each key once.  A member that is put in stands in the place
of the one with an equal key, or at the end.  What can be stepped through can be put into a
table if it steps through pairs.
-/

namespace UrlRebase.Setting

/-- The members of a table. -/
abbrev Members := List (Setting × Setting)

namespace Members

def get? (members : Members) (key : Setting) : Option Setting :=
  (members.find? fun member => member.1.same key).map Prod.snd

def at? (members : Members) (key : Text) : Option Setting :=
  members.get? (.text key)

/-- Puts a setting at a key.  An equal key that is there already stays. -/
def put (members : Members) (key value : Setting) : Members :=
  match members with
  | [] => [(key, value)]
  | (other, old) :: rest =>
      if other.same key then (other, value) :: rest
      else (other, old) :: put rest key value

def putAll (members others : Members) : Members :=
  others.foldl (fun members member => members.put member.1 member.2) members

/-- The members that a sequence of assignments leaves: the place and the key of the first and
the setting of the last for each key. -/
def ofAssignments (assignments : List (Setting × Setting)) : Members :=
  putAll [] assignments

end Members

/-- Why a setting cannot be put into a table. -/
inductive PairError where
  /-- It cannot be stepped through, or it steps through something that cannot, or a pair has
  a key that cannot be one. -/
  | noPair
  /-- It steps through something of the wrong length at a place. -/
  | length (place size : Nat)
deriving DecidableEq, Repr

namespace PairError

def message : PairError → Text
  | .noPair => "Value of the wrong kind".text
  | .length place size =>
      "dictionary update sequence element #".text ++ Text.ofNat place ++
        " has length ".text ++ Text.ofNat size ++ "; 2 is required".text

end PairError

def asPair (place : Nat) (value : Setting) : Except PairError (Setting × Setting) :=
  match value.elements? with
  | none => .error .noPair
  | some [key, value] => if key.canBeKey then .ok (key, value) else .error .noPair
  | some elements => .error (.length place elements.length)

namespace Members

/-- Puts pairs into a table, of which the first has a place, up to one that is none. -/
def putPairs (members : Members) (place : Nat) : List Setting → Members × Option PairError
  | [] => (members, none)
  | value :: rest =>
      match value.asPair place with
      | .error error => (members, some error)
      | .ok (key, value) => (members.put key value).putPairs (place + 1) rest

/-- Puts what a setting holds into a table.  What comes before a fault is put in. -/
def update (members : Members) : Setting → Members × Option PairError
  | .table mark others => (members.putAll (membersOf mark others), none)
  | value =>
      match value.elements? with
      | none => (members, some .noPair)
      | some elements => members.putPairs 0 elements

end Members

end UrlRebase.Setting
