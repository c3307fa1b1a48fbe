import UrlRebase.Decimal.Binary
import UrlRebase.Text.Basic

/-!
# JSON values

Configuration and source maps are JSON.  A value keeps what its text said: integers of
any size are apart from doubles, and the members of an object stay in order.

`same` is equality of values across the numeric kinds: an integer, a double and a truth
value are the same when they are the same number, and objects do not depend on the order
of their members.
-/

namespace UrlRebase

/-- A JSON value. -/
inductive Json where
  | null
  | bool (value : Bool)
  | int (value : Int)
  | double (value : Double)
  | string (value : Text)
  | array (items : List Json)
  | object (members : List (Text × Json))
deriving Repr, Inhabited

namespace Json

def member? (key : Text) : Json → Option Json
  | .object members => members.lookup key
  | _ => none

/-- Puts a member in place of the one with its key, or at the end. -/
def put (key : Text) (value : Json) : List (Text × Json) → List (Text × Json)
  | [] => [(key, value)]
  | (other, old) :: rest =>
      if other = key then (key, value) :: rest else (other, old) :: put key value rest

/-- The members that a sequence of assignments leaves: the place of the first and the
value of the last for each key. -/
def ofMembers (members : List (Text × Json)) : List (Text × Json) :=
  members.foldl (fun kept member => put member.1 member.2 kept) []

/-- Whether a value counts as true: all but null, false, zero and what is empty. -/
def truthy : Json → Bool
  | .null => false
  | .bool value => value
  | .int value => value ≠ 0
  | .double value => !value.isZero
  | .string value => value ≠ []
  | .array items => !items.isEmpty
  | .object members => !members.isEmpty

/-- The values that a sequence steps through: the items of an array, the keys of an object,
and the characters of a text. -/
def elements? : Json → Option (List Json)
  | .array items => some items
  | .object members => some (members.map fun member => .string member.1)
  | .string value => some (value.map fun c => .string [c])
  | _ => none

def toInt? : Json → Option Int
  | .int value => some value
  | .bool value => some (if value then 1 else 0)
  | _ => none

mutual

/-- Whether two values are equal, numbers by their value. -/
def same : Json → Json → Bool
  | .null, .null => true
  | .string left, .string right => left = right
  | .array left, .array right => sameItems left right
  | .object left, .object right =>
      left.length = right.length && sameMembers left right
  | .double left, .double right => left.same right
  | .double left, .int right => left.sameInt right
  | .double left, .bool right => left.sameInt (if right then 1 else 0)
  | .int left, .double right => right.sameInt left
  | .bool left, .double right => right.sameInt (if left then 1 else 0)
  | .int left, .int right => left = right
  | .int left, .bool right => left = (if right then 1 else 0)
  | .bool left, .int right => (if left then 1 else 0) = right
  | .bool left, .bool right => left = right
  | _, _ => false

/-- Whether two lists are equal item by item. -/
def sameItems : List Json → List Json → Bool
  | [], [] => true
  | left :: lefts, right :: rights => same left right && sameItems lefts rights
  | _, _ => false

/-- Whether every member on the left has an equal one on the right. -/
def sameMembers : List (Text × Json) → List (Text × Json) → Bool
  | [], _ => true
  | (key, value) :: rest, members =>
      (match members.lookup key with
        | none => false
        | some other => same value other) && sameMembers rest members

end

end Json

end UrlRebase
