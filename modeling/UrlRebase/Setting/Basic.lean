import UrlRebase.Calendar.Moment
import UrlRebase.Json.Basic

/-!
# Settings

A setting is a value of a configuration.  Besides the values of JSON there are bytes, dates,
moments, pairs and sets, and the keys of a table are settings too.

A configuration file can give a name to a value and use the value again by its name.  A mark
tells which values are one and the same, so that the file can be written again with names.
A value that is used inside itself is a loop there.
-/

namespace UrlRebase

/-- Which value of a configuration file a value is; values without a mark are alone. -/
abbrev Mark := Option Nat

/-- A value of a configuration. -/
inductive Setting where
  | null
  | bool (value : Bool)
  | int (value : Int)
  | double (value : Double)
  | text (value : Text)
  | bytes (value : List UInt8)
  | date (mark : Mark) (value : Date)
  | moment (mark : Mark) (value : Moment)
  | list (mark : Mark) (items : List Setting)
  | pair (first second : Setting)
  | table (mark : Mark) (members : List (Setting × Setting))
  | set (mark : Mark) (items : List Setting)
  /-- A list or a table inside itself. -/
  | loop (mark : Nat)
deriving Repr, Inhabited

namespace Setting

mutual

def ofJson : Json → Setting
  | .null => .null
  | .bool value => .bool value
  | .int value => .int value
  | .double value => .double value
  | .string value => .text value
  | .array items => .list none (ofItems items)
  | .object members => .table none (ofMembers members)

def ofItems : List Json → List Setting
  | [] => []
  | item :: rest => ofJson item :: ofItems rest

def ofMembers : List (Text × Json) → List (Setting × Setting)
  | [] => []
  | (key, value) :: rest => (.text key, ofJson value) :: ofMembers rest

end

/-- Whether a setting counts as true: all but null, false, zero and what is empty. -/
def truthy : Setting → Bool
  | .null => false
  | .bool value => value
  | .int value => value ≠ 0
  | .double value => !value.isZero
  | .text value => value ≠ []
  | .bytes value => value ≠ []
  | .list _ items | .set _ items => !items.isEmpty
  | .table _ members => !members.isEmpty
  | .date .. | .moment .. | .pair .. | .loop _ => true

/-- Whether a setting can be a key: it is no list, no table and no set, nor holds one. -/
def canBeKey : Setting → Bool
  | .list .. | .table .. | .set .. | .loop _ => false
  | .pair first second => first.canBeKey && second.canBeKey
  | _ => true

/-- The number that a setting is; truth values are zero and one. -/
def number? : Setting → Option (Int ⊕ Double)
  | .bool value => some (.inl (if value then 1 else 0))
  | .int value => some (.inl value)
  | .double value => some (.inr value)
  | _ => none

/-- Whether two numbers are equal; what is no number equals nothing. -/
def sameNumber : Int ⊕ Double → Int ⊕ Double → Bool
  | .inl left, .inl right => left = right
  | .inl left, .inr right => right.sameInt left
  | .inr left, .inl right => left.sameInt right
  | .inr left, .inr right => left ≠ .nan && left.same right

/-- Whether two settings that hold no others are equal. -/
def sameScalar : Setting → Setting → Bool
  | .null, .null => true
  | .text left, .text right => left = right
  | .bytes left, .bytes right => left = right
  | .date _ left, .date _ right => left = right
  | .moment _ left, .moment _ right => left.same right
  | left, right =>
      match left.number?, right.number? with
      | some left, some right => sameNumber left right
      | _, _ => false

mutual

/-- Whether two settings are equal, numbers by their value, and tables and sets in any order. -/
def same : Setting → Setting → Bool
  | .list _ left, .list _ right => sameItems left right
  | .pair first second, .pair first' second' => same first first' && same second second'
  | .table _ left, .table _ right => left.length = right.length && sameMembers left right
  | .set _ left, .set _ right => left.length = right.length && sameMembership left right
  | .loop left, .loop right => left = right
  | left, right => sameScalar left right

/-- Whether two lists are equal item by item. -/
def sameItems : List Setting → List Setting → Bool
  | [], [] => true
  | left :: lefts, right :: rights => same left right && sameItems lefts rights
  | _, _ => false

/-- Whether every item on the left has an equal one on the right. -/
def sameMembership : List Setting → List Setting → Bool
  | [], _ => true
  | item :: rest, items => items.any (same item ·) && sameMembership rest items

/-- Whether every member on the left has an equal one on the right. -/
def sameMembers : List (Setting × Setting) → List (Setting × Setting) → Bool
  | [], _ => true
  | (key, value) :: rest, members =>
      members.any (fun member => same key member.1 && same value member.2) &&
        sameMembers rest members

end

end Setting

end UrlRebase
