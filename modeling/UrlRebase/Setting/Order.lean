import UrlRebase.Decimal.Arithmetic
import UrlRebase.Setting.Basic
import UrlRebase.Setting.Insertion

/-!
# The order of keys

Keys are sorted if they can all be compared: numbers with numbers, texts with texts, and so
on.  Otherwise they stay in the order in which they are.

A set has an order of its own, in which it is gone through and shown.
-/

namespace UrlRebase.Setting

/-- A kind of keys that can be compared with each other. -/
inductive KeyKind where
  | number
  | text
  | bytes
  | date
  /-- A moment, and whether its difference from universal time is known. -/
  | moment (isAbsolute : Bool)
deriving DecidableEq, Repr

def keyKind? : Setting → Option KeyKind
  | .bool _ | .int _ | .double _ => some .number
  | .text _ => some .text
  | .bytes _ => some .bytes
  | .date .. => some .date
  | .moment _ value => some (.moment value.offset.isSome)
  | _ => none

def toDouble : Int ⊕ Double → Double
  | .inl value => .ofInt value
  | .inr value => value

/-- The lexicographic order of numbers. -/
def numbersLe : List Nat → List Nat → Bool
  | [], _ => true
  | _ :: _, [] => false
  | a :: as, b :: bs => if a = b then numbersLe as bs else a < b

/-- Whether a key is not behind another of its kind. -/
def keyLe : Setting → Setting → Bool
  | .text left, .text right => left.le right
  | .bytes left, .bytes right => numbersLe (left.map UInt8.toNat) (right.map UInt8.toNat)
  | .date _ left, .date _ right => left.le right
  | .moment _ left, .moment _ right => left.instant ≤ right.instant
  | left, right =>
      match left.number?, right.number? with
      | some left, some right => (toDouble left).le (toDouble right)
      | _, _ => true

/-- Whether a key comes before another of its kind; what is no number is not before any. -/
def keyBefore (left right : Setting) : Bool :=
  keyLe left right && !keyLe right left

def areComparable : List Setting → Bool
  | [] | [_] => true
  | first :: rest =>
      first.keyKind?.isSome && rest.all fun key => key.keyKind? = first.keyKind?

/-- Members in the order of their keys. -/
def sortMembers (members : List (Setting × Setting)) : List (Setting × Setting) :=
  if areComparable (members.map Prod.fst) then
    Insertion.sort (fun left right => keyBefore left.1 right.1) members
  else members

/-- Items in their order. -/
def sortItems (items : List Setting) : List Setting :=
  if areComparable items then Insertion.sort keyBefore items else items

/-- The room that a set takes for a count of elements: a power of two, more than half of
which stays free. -/
def roomOf (count : Nat) : Nat :=
  if count < 5 then 8 else 2 <<< Nat.log2 (2 * count)

/-- The number by which a set finds a place for an element that is a whole number. -/
def placeNumber? : Setting → Option Int
  | .bool value => some (if value then 1 else 0)
  | .int value =>
      let reduced := value.tmod 0x1FFFFFFFFFFFFFFF
      some (if reduced = -1 then -2 else reduced)
  | _ => none

/-- The elements of a set in its order: whole numbers by their residues for the room of the
set, and other elements as they were put in. -/
def setOrder (items : List Setting) : List Setting :=
  match items.mapM placeNumber? with
  | none => items
  | some numbers =>
      let room := roomOf items.length
      ((numbers.zip items).mergeSort fun left right =>
        left.1 % room ≤ right.1 % room).map Prod.snd

mutual

/-- A setting with the members of all tables and the items of all sets in order. -/
def sorted : Setting → Setting
  | .list mark items => .list mark (sortedItems items)
  | .pair first second => .pair (sorted first) (sorted second)
  | .table mark members => .table mark (sortMembers (sortedMembers members))
  | .set mark items => .set mark (sortItems (sortedItems items))
  | value => value

/-- Items with everything inside them in order. -/
def sortedItems : List Setting → List Setting
  | [] => []
  | item :: rest => sorted item :: sortedItems rest

/-- Members with everything inside them in order. -/
def sortedMembers : List (Setting × Setting) → List (Setting × Setting)
  | [] => []
  | (key, value) :: rest => (key, sorted value) :: sortedMembers rest

end

end UrlRebase.Setting
