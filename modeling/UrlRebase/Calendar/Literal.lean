import UrlRebase.Calendar.Moment

/-!
# Dates in messages

How messages show dates, moments and spans of time, and what they say about numbers that are
no date.
-/

namespace UrlRebase

/-- A call with its arguments, as messages show values that have no signs of their own. -/
def Text.call (name : String) (arguments : List Text) : Text :=
  name.text ++ "(".text ++ Text.joined [',', ' '] arguments ++ ")".text

namespace Date

def numbers (date : Date) : List Text :=
  [date.year, date.month, date.day].map Text.ofNat

def literal (date : Date) : Text :=
  Text.call "datetime.date" date.numbers

end Date

/-- A span of minutes as a message shows it: whole days and the seconds beyond them. -/
def spanLiteral (minutes : Int) : Text :=
  let days := minutes / Moment.minutesOfDay
  let seconds := minutes % Moment.minutesOfDay * 60
  let told (name : String) (n : Int) : List Text :=
    if n = 0 then [] else [name.text ++ "=".text ++ Text.ofInt n]
  let arguments := told "days" days ++ told "seconds" seconds
  Text.call "datetime.timedelta" (if arguments = [] then [['0']] else arguments)

namespace Moment

def zoneLiteral (minutes : Int) : Text :=
  if minutes = 0 then "datetime.timezone.utc".text
  else Text.call "datetime.timezone" [spanLiteral minutes]

/-- The moment as a message shows it; seconds and what is below them are told if need be. -/
def literal (moment : Moment) : Text :=
  let below :=
    if moment.microsecond ≠ 0 then [moment.second, moment.microsecond]
    else if moment.second ≠ 0 then [moment.second]
    else []
  let zone := moment.offset.map fun minutes => "tzinfo=".text ++ zoneLiteral minutes
  Text.call "datetime.datetime"
    (moment.date.numbers ++ ([moment.hour, moment.minute] ++ below).map Text.ofNat ++ zone.toList)

end Moment

namespace CalendarError

def message : CalendarError → Text
  | .year given => "year ".text ++ Text.ofNat given ++ " is out of range".text
  | .month => "month must be in 1..12".text
  | .day => "day is out of range for month".text
  | .hour => "hour must be in 0..23".text
  | .minute => "minute must be in 0..59".text
  | .second => "second must be in 0..59".text
  | .offset minutes =>
      ("offset must be a timedelta strictly between -timedelta(hours=24) and " ++
        "timedelta(hours=24), not ").text ++ spanLiteral minutes ++ ".".text

end CalendarError

end UrlRebase
