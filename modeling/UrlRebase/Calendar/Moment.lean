import UrlRebase.Calendar.Date

/-!
# Moments

A moment is a date and a time of day, perhaps with its difference from universal time.  Two
moments with a difference are the same if they are the same instant; a moment without one is
the same only as another without one.
-/

namespace UrlRebase

/-- A date and a time of day. -/
structure Moment where
  date : Date
  hour : Nat
  minute : Nat
  second : Nat
  microsecond : Nat
  /-- The minutes by which the time of day is ahead of universal time, if known. -/
  offset : Option Int
deriving DecidableEq, Repr

namespace Moment

def minutesOfDay : Nat := 24 * 60

/-- The difference of some minutes from universal time, which is less than a day. -/
def checkOffset (minutes : Int) : Except CalendarError Unit :=
  if minutes.natAbs < minutesOfDay then .ok () else .error (.offset minutes)

/-- The moment with the given numbers.  The difference is looked at first. -/
def ofNumbers (year month day hour minute second microsecond : Nat) (offset : Option Int) :
    Except CalendarError Moment := do
  match offset with
  | none => pure ()
  | some minutes => checkOffset minutes
  let date ← Date.ofNumbers year month day
  if 23 < hour then throw .hour
  if 59 < minute then throw .minute
  if 59 < second then throw .second
  return { date, hour, minute, second, microsecond, offset }

/-- The microseconds up to a moment, in universal time as far as the difference is known. -/
def instant (moment : Moment) : Int :=
  let minutes : Int :=
    (moment.date.dayNumber * 24 + moment.hour) * 60 + moment.minute - moment.offset.getD 0
  (minutes * 60 + moment.second) * 1000000 + moment.microsecond

def same (left right : Moment) : Bool :=
  left.offset.isSome = right.offset.isSome && left.instant = right.instant

def offsetText (minutes : Int) : Text :=
  let size := minutes.natAbs
  (if minutes < 0 then '-' else '+') ::
    (Text.padded 2 (size / 60) ++ ":".text ++ Text.padded 2 (size % 60))

def toText (moment : Moment) : Text :=
  let fraction : Text :=
    if moment.microsecond = 0 then [] else ".".text ++ Text.padded 6 moment.microsecond
  moment.date.toText ++ " ".text ++ Text.padded 2 moment.hour ++ ":".text ++
    Text.padded 2 moment.minute ++ ":".text ++ Text.padded 2 moment.second ++ fraction ++
    (moment.offset.map offsetText).getD []

end Moment

end UrlRebase
