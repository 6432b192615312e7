import ApiMock.Data.Calendar
import ApiMock.Data.Shown
import ApiMock.Failure
/-!
# Yaml — dates and times as scalars

The written forms of a day, `2020-01-02`, and of a point in time: a day,
a `T` or blanks, and a time with an optional fraction and an optional
zone. The form is settled first; that there is such a day and such an
hour is checked only when the value is made.
-/

namespace ApiMock

namespace Yaml

/-- A zone as it is written: universal time, or an offset. -/
inductive WrittenZone where
  | universal
  | offset (negative : Bool) (hour minute : Nat)
  deriving Repr

/-- A time of day as it is written. -/
structure WrittenTime where
  hour : Nat
  minute : Nat
  second : Nat
  fraction : List Char
  zone : Option WrittenZone
  deriving Repr

/-- A day or a point in time as it is written. `isPadded` tells that
month and day have two digits. -/
structure Moment where
  year : Nat
  month : Nat
  day : Nat
  isPadded : Bool
  time : Option WrittenTime
  deriving Repr

namespace Moment

/-- The number that ASCII digits write. -/
def number (digits : List Char) : Nat :=
  digits.foldl (fun n c => 10 * n + (c.toNat - 48)) 0

/-- A number of at least `least` and at most `most` digits, and the rest. -/
def digits? (least most : Nat) (cs : List Char) : Option (List Char × List Char) :=
  let found := (cs.take most).takeWhile Char.isDigit
  if least ≤ found.length then some (found, cs.drop found.length) else none

/-- What follows a character. -/
def after? (c : Char) : List Char → Option (List Char)
  | d :: rest => if d = c then some rest else none
  | [] => none

/-- What separates a day from a time. -/
def separator? (cs : List Char) : Option (List Char) :=
  match cs with
  | 'T' :: rest => some rest
  | 't' :: rest => some rest
  | ' ' :: rest => some (rest.dropWhile fun c => c = ' ' || c = '\t')
  | '\t' :: rest => some (rest.dropWhile fun c => c = ' ' || c = '\t')
  | _ => none

/-- A sign of an offset. -/
def sign? (cs : List Char) : Option (Bool × List Char) :=
  match cs with
  | '-' :: rest => some (true, rest)
  | '+' :: rest => some (false, rest)
  | _ => none

/-- A zone that stands at the end; blanks may come first. -/
def zone? (cs : List Char) : Option (Option WrittenZone) :=
  if cs.isEmpty then some none
  else
    match cs.dropWhile fun c => c = ' ' || c = '\t' with
    | ['Z'] => some (some .universal)
    | rest => do
      let (negative, rest) ← sign? rest
      let (hour, rest) ← digits? 1 2 rest
      if rest.isEmpty then some (some (.offset negative (number hour) 0))
      else
        let (minute, rest) ← digits? 2 2 (← after? ':' rest)
        if rest.isEmpty then some (some (.offset negative (number hour) (number minute))) else none

/-- The digits behind a point, and the rest. -/
def fraction (cs : List Char) : List Char × List Char :=
  match cs with
  | '.' :: rest => rest.span Char.isDigit
  | cs => ([], cs)

/-- A time of day that stands at the end. -/
def time? (cs : List Char) : Option WrittenTime := do
  let (hour, rest) ← digits? 1 2 cs
  let (minute, rest) ← digits? 2 2 (← after? ':' rest)
  let (second, rest) ← digits? 2 2 (← after? ':' rest)
  let (fraction, rest) := fraction rest
  let zone ← zone? rest
  return ⟨number hour, number minute, number second, fraction, zone⟩

/-- A day or a point in time by its written form. -/
def ofText? (cs : List Char) : Option Moment := do
  let (year, rest) ← digits? 4 4 cs
  let (month, rest) ← digits? 1 2 (← after? '-' rest)
  let (day, rest) ← digits? 1 2 (← after? '-' rest)
  let isPadded := month.length = 2 && day.length = 2
  if rest.isEmpty then return ⟨number year, number month, number day, isPadded, none⟩
  else
    let time ← time? (← separator? rest)
    return ⟨number year, number month, number day, isPadded, some time⟩

/-- A plain scalar of this form is a day or a point in time. A day alone
needs two digits for month and day. -/
def isRecognised (m : Moment) : Bool :=
  m.isPadded || m.time.isSome

/-- The microseconds that the digits of a fraction write; more than six
do not count. -/
def microseconds (digits : List Char) : Nat :=
  number ((digits ++ List.replicate 6 '0').take 6)

/-- Why an offset of a day or more is refused. -/
def offsetReason (minutes : Int) : String :=
  "offset must be a timedelta strictly between -timedelta(hours=24) and timedelta(hours=24), not " ++
    Timestamp.quotedSpan minutes ++ "."

/-- The offset of a zone in minutes. -/
def zoneMinutes (z : WrittenZone) : Except Failure Int :=
  match z with
  | .universal => .ok 0
  | .offset negative hour minute =>
    let size : Int := (hour * 60 + minute : Nat)
    let minutes := if negative then -size else size
    if minutes.natAbs < 1440 then .ok minutes else .error (.badValue (offsetReason minutes))

/-- The value that is written. -/
def value (m : Moment) : Except Failure Scalar := do
  match m.time with
  | none => return .date (← (CalendarDate.make? m.year m.month m.day).mapError .badValue)
  | some t =>
    let offset ← t.zone.mapM zoneMinutes
    return .timestamp (← (Timestamp.make? m.year m.month m.day t.hour t.minute t.second
      (microseconds t.fraction) offset).mapError .badValue)

end Moment

end Yaml

end ApiMock
