import ApiMock.Text.Digit
/-!
# Data — dates and timestamps

Days of the Gregorian calendar between the years 1 and 9999, and points
in time on them, with or without an offset from universal time. `make?`
functions refuse what is out of range and say which part is.
-/

namespace ApiMock

/-- A day. -/
structure CalendarDate where
  year : Nat
  month : Nat
  day : Nat
  deriving DecidableEq, Repr

/-- A point in time to the microsecond; `offset` is in minutes east of
universal time. -/
structure Timestamp where
  date : CalendarDate
  hour : Nat
  minute : Nat
  second : Nat
  microsecond : Nat
  offset : Option Int
  deriving DecidableEq, Repr

namespace CalendarDate

/-- Every fourth year, but of the centuries only every fourth. -/
def isLeap (year : Nat) : Bool :=
  year % 4 = 0 && (year % 100 ≠ 0 || year % 400 = 0)

/-- The number of days of a month. -/
def monthLength (year month : Nat) : Nat :=
  if month = 2 then (if isLeap year then 29 else 28)
  else if month = 4 || month = 6 || month = 9 || month = 11 then 30
  else 31

/-- A day by its numbers, or the first thing wrong with them. -/
def make? (year month day : Nat) : Except String CalendarDate :=
  if year < 1 || 9999 < year then .error s!"year {year} is out of range"
  else if month < 1 || 12 < month then .error "month must be in 1..12"
  else if day < 1 || monthLength year month < day then .error "day is out of range for month"
  else .ok ⟨year, month, day⟩

/-- A number padded with zeros. -/
def padded (width n : Nat) : String :=
  let digits := Nat.toDigits 10 n
  String.ofList (List.replicate (width - digits.length) '0' ++ digits)

/-- The day as `2020-01-02`. -/
def text (d : CalendarDate) : String :=
  padded 4 d.year ++ "-" ++ padded 2 d.month ++ "-" ++ padded 2 d.day

/-- The days from the start of year 1 to the start of a year. -/
def daysBeforeYear (year : Nat) : Nat :=
  let y := year - 1
  y * 365 + y / 4 - y / 100 + y / 400

/-- The days of the first months of a year. -/
def daysOfMonths (year : Nat) : (months : Nat) → Nat
  | 0 => 0
  | months + 1 => daysOfMonths year months + monthLength year (months + 1)

/-- The number of the day, counted from the start of year 1. -/
def ordinal (d : CalendarDate) : Nat :=
  daysBeforeYear d.year + daysOfMonths d.year (d.month - 1) + d.day

end CalendarDate

namespace Timestamp

open CalendarDate (padded)

/-- A point in time by its numbers, or the first thing wrong with them. -/
def make? (year month day hour minute second microsecond : Nat) (offset : Option Int) :
    Except String Timestamp := do
  let date ← CalendarDate.make? year month day
  if 23 < hour then .error "hour must be in 0..23"
  else if 59 < minute then .error "minute must be in 0..59"
  else if 59 < second then .error "second must be in 0..59"
  else .ok ⟨date, hour, minute, second, microsecond, offset⟩

/-- An offset as `+01:30`. -/
def offsetText (minutes : Int) : String :=
  (if minutes < 0 then "-" else "+") ++ padded 2 (minutes.natAbs / 60) ++ ":" ++
    padded 2 (minutes.natAbs % 60)

/-- Day and time of day with a separator between them; the microseconds
only if there are some. -/
def textWith (separator : String) (t : Timestamp) : String :=
  t.date.text ++ separator ++ padded 2 t.hour ++ ":" ++ padded 2 t.minute ++ ":" ++
    padded 2 t.second ++
    (if t.microsecond = 0 then "" else "." ++ padded 6 t.microsecond) ++
    (t.offset.map offsetText).getD ""

/-- The point in time as `2020-01-02T03:04:05`. -/
def isoText (t : Timestamp) : String := t.textWith "T"

/-- Microseconds since the start of year 1, on the local clock. -/
def localMicroseconds (t : Timestamp) : Int :=
  ((((t.date.ordinal * 24 + t.hour) * 60 + t.minute) * 60 + t.second) * 1000000 + t.microsecond : Nat)

/-- The same point in time: on the same clock if neither has an offset,
in universal time if both have one. -/
def same (s t : Timestamp) : Bool :=
  match s.offset, t.offset with
  | none, none => s.localMicroseconds = t.localMicroseconds
  | some a, some b =>
    s.localMicroseconds - a * 60000000 = t.localMicroseconds - b * 60000000
  | _, _ => false

end Timestamp

end ApiMock
