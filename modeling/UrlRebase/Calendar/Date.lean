import UrlRebase.Text.Basic

/-!
# Dates

Days of the Gregorian calendar, from the year 1 to the year 9999.  `Date.ofNumbers` checks
the numbers of a date in the order year, month, day; `dayNumber` counts days, so that dates
can be subtracted.
-/

namespace UrlRebase

namespace Text

/-- The digits of a number, with zeros before them up to a width. -/
def padded (width n : Nat) : Text :=
  let digits := ofNat n
  List.replicate (width - digits.length) ('0' : CodePoint) ++ digits

end Text

/-- Why numbers are no date or no time of day. -/
inductive CalendarError where
  | year (given : Nat)
  | month
  | day
  | hour
  | minute
  | second
  /-- The difference from universal time is a day or more. -/
  | offset (minutes : Int)
deriving DecidableEq, Repr

/-- A day. -/
structure Date where
  year : Nat
  month : Nat
  day : Nat
deriving DecidableEq, Repr

namespace Date

def isLeapYear (year : Nat) : Bool :=
  year % 4 = 0 && (year % 100 ≠ 0 || year % 400 = 0)

def daysInMonth (year month : Nat) : Nat :=
  if month = 2 then if isLeapYear year then 29 else 28
  else if month = 4 ∨ month = 6 ∨ month = 9 ∨ month = 11 then 30
  else 31

def ofNumbers (year month day : Nat) : Except CalendarError Date :=
  if year = 0 ∨ 9999 < year then .error (.year year)
  else if month = 0 ∨ 12 < month then .error .month
  else if day = 0 ∨ daysInMonth year month < day then .error .day
  else .ok ⟨year, month, day⟩

/-- The number of days up to and including a date. -/
def dayNumber (date : Date) : Nat :=
  let years := date.year - 1
  let months := (List.range (date.month - 1)).foldl
    (fun days n => days + daysInMonth date.year (n + 1)) 0
  365 * years + years / 4 - years / 100 + years / 400 + months + date.day

def toText (date : Date) : Text :=
  Text.padded 4 date.year ++ "-".text ++ Text.padded 2 date.month ++ "-".text ++
    Text.padded 2 date.day

def le (left right : Date) : Bool :=
  left.dayNumber ≤ right.dayNumber

end Date

end UrlRebase
