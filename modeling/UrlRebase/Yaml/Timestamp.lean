import UrlRebase.Calendar.Moment

/-!
# Dates and moments as text

A date is its year, month and day with hyphens between them.  A moment is a date and a time
of day behind it, perhaps with a fraction of the second and the difference from universal
time.
-/

namespace UrlRebase.Yaml

/-- The time of day in a timestamp. -/
structure ClockTime where
  hour : Nat
  minute : Nat
  second : Nat
  /-- The digits of the fraction of the second. -/
  fraction : Text
  /-- The minutes by which the time of day is ahead of universal time, if they are given. -/
  offset : Option Int

/-- What a text says about a date or a moment. -/
structure Timestamp where
  year : Nat
  month : Nat
  day : Nat
  /-- Whether the month and the day have two digits. -/
  isFull : Bool
  time : Option ClockTime

namespace Timestamp

def number (digits : Text) : Nat :=
  digits.foldl (fun n c => n * 10 + (c.toNat - '0'.toNat)) 0

/-- The digits at the start of a text, at most some of them but at least others. -/
def digits? (least most : Nat) (text : Text) : Option (Text × Text) :=
  let digits := (text.take most).takeWhile CodePoint.isDigit
  if least ≤ digits.length then some (digits, text.drop digits.length) else none

def behind? (sign : CodePoint) (least most : Nat) : Text → Option (Text × Text)
  | c :: rest => if c = sign then digits? least most rest else none
  | [] => none

def offset? : Text → Option (Int × Text)
  | 'Z' :: rest => some (0, rest)
  | c :: rest =>
      if c = '+' ∨ c = '-' then do
        let (hours, rest) ← digits? 1 2 rest
        let (minutes, rest) := (behind? ':' 2 2 rest).getD ([], rest)
        let size : Int := number hours * 60 + number minutes
        return (if c = '-' then -size else size, rest)
      else none
  | [] => none

def clockTime? (text : Text) : Option ClockTime := do
  let (hour, rest) ← digits? 1 2 text
  let (minute, rest) ← behind? ':' 2 2 rest
  let (second, rest) ← behind? ':' 2 2 rest
  let (fraction, rest) : Text × Text :=
    match rest with
    | '.' :: rest => (rest.takeWhile CodePoint.isDigit, rest.dropWhile CodePoint.isDigit)
    | rest => ([], rest)
  let time (offset : Option Int) : ClockTime :=
    { hour := number hour, minute := number minute, second := number second, fraction, offset }
  match offset? (rest.dropWhile fun c => c = ' ' || c = '\t') with
  | some (offset, []) => return time (some offset)
  | _ => if rest = [] then return time none else none

def timeBehind? : Text → Option ClockTime
  | 'T' :: rest | 't' :: rest => clockTime? rest
  | c :: rest =>
      if c = ' ' ∨ c = '\t' then
        clockTime? (rest.dropWhile fun c => c = ' ' || c = '\t')
      else none
  | [] => none

def ofText? (text : Text) : Option Timestamp := do
  let (year, rest) ← digits? 4 4 text
  let (month, rest) ← behind? '-' 1 2 rest
  let (day, rest) ← behind? '-' 1 2 rest
  let stamp (time : Option ClockTime) : Timestamp :=
    { year := number year, month := number month, day := number day
      isFull := month.length = 2 && day.length = 2, time }
  if rest = [] then return stamp none
  else return stamp (some (← timeBehind? rest))

/-- The microseconds that the digits of a fraction spell; further digits do not count. -/
def microseconds (fraction : Text) : Nat :=
  let digits := fraction.take 6
  number (digits ++ List.replicate (6 - digits.length) ('0' : CodePoint))

/-- The date that a timestamp without a time of day is. -/
def date (stamp : Timestamp) : Except CalendarError Date :=
  Date.ofNumbers stamp.year stamp.month stamp.day

def moment (stamp : Timestamp) (time : ClockTime) : Except CalendarError Moment :=
  Moment.ofNumbers stamp.year stamp.month stamp.day time.hour time.minute time.second
    (microseconds time.fraction) time.offset

end Timestamp

end UrlRebase.Yaml
