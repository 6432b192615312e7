import ApiMock.Data.Basic
import ApiMock.Number.Layout
import ApiMock.Text.Quoted
/-!
# Data — values in messages

The text of a value in messages and in names made from values. A value
on its own is shown plainly; inside a collection, and where a message
asks for it, it is quoted. A whole number of too many digits has no text,
nor has anything that holds one. `withTextKeys` turns the keys of a value
into their plain texts, which is how a document gets texts for keys.
-/

namespace ApiMock

open Number (plainText)

namespace CalendarDate

/-- A day as a quoted value. -/
def quoted (d : CalendarDate) : String :=
  s!"datetime.date({d.year}, {d.month}, {d.day})"

end CalendarDate

namespace Timestamp

/-- A span of minutes as a quoted value: whole days and the seconds left. -/
def quotedSpan (minutes : Int) : String :=
  let days := minutes.fdiv 1440
  let seconds := minutes.fmod 1440 * 60
  let parts := (if days = 0 then [] else [s!"days={days}"]) ++
    (if seconds = 0 then [] else [s!"seconds={seconds}"])
  "datetime.timedelta(" ++ (if parts.isEmpty then "0" else String.intercalate ", " parts) ++ ")"

/-- An offset as a quoted value. -/
def quotedOffset (minutes : Int) : String :=
  if minutes = 0 then "datetime.timezone.utc"
  else "datetime.timezone(" ++ quotedSpan minutes ++ ")"

/-- A point in time as a quoted value; zero seconds at the end are left out. -/
def quoted (t : Timestamp) : String :=
  let small :=
    if t.microsecond ≠ 0 then [t.second, t.microsecond]
    else if t.second ≠ 0 then [t.second] else []
  let numbers := [t.date.year, t.date.month, t.date.day, t.hour, t.minute] ++ small
  "datetime.datetime(" ++ String.intercalate ", " (numbers.map toString) ++
    (t.offset.map fun o => ", tzinfo=" ++ quotedOffset o).getD "" ++ ")"

end Timestamp

namespace Scalar

/-- A scalar as a quoted value. -/
def quoted : Scalar → String
  | null => "None"
  | bool b => if b then "True" else "False"
  | int n => toString n
  | float x => plainText x
  | str s => Text.quoted s
  | date d => d.quoted
  | timestamp t => t.quoted
  | bytes b => Text.quotedBytes b

/-- A scalar shown on its own. -/
def shown : Scalar → String
  | str s => s
  | date d => d.text
  | timestamp t => t.textWith " "
  | s => s.quoted

@[simp] theorem shown_str (s : String) : (str s).shown = s := rfl

/-- Whether a scalar has a text at all. -/
def hasText : Scalar → Bool
  | int n => Number.hasText n
  | _ => true

end Scalar

/-- Why something with a number of too many digits is not shown. -/
def tooManyDigits : Failure :=
  .badValue s!"Exceeds the limit ({Number.mostDigits} digits) for integer string conversion"

namespace Scalar

/-- A scalar shown on its own, if it has a text. -/
def plainText (s : Scalar) : Except Failure String :=
  if s.hasText then .ok s.shown else .error tooManyDigits

end Scalar

namespace Data

mutual
/-- A value as a quoted value. -/
def quoted : Data → String
  | .scalar s => s.quoted
  | .list items => "[" ++ String.intercalate ", " (quotedItems items) ++ "]"
  | .pair a b => "(" ++ a.quoted ++ ", " ++ b.quoted ++ ")"
  | .set members =>
    if members.isEmpty then "set()"
    else "\x7b" ++ String.intercalate ", " (members.map Scalar.quoted) ++ "\x7d"
  | .map es => "\x7b" ++ String.intercalate ", " (quotedEntries es) ++ "\x7d"
  | .loop isMapping => if isMapping then "\x7b...\x7d" else "[...]"

/-- The quoted elements of a list. -/
def quotedItems : List Data → List String
  | [] => []
  | d :: rest => d.quoted :: quotedItems rest

/-- The quoted entries of a mapping. -/
def quotedEntries : List (Scalar × Data) → List String
  | [] => []
  | (k, d) :: rest => (k.quoted ++ ": " ++ d.quoted) :: quotedEntries rest
end

/-- A value shown on its own. -/
def shown : Data → String
  | .scalar s => s.shown
  | d => d.quoted

mutual
/-- Whether a value has a text at all. -/
def hasText : Data → Bool
  | .scalar s => s.hasText
  | .list items => itemsHaveText items
  | .pair a b => a.hasText && b.hasText
  | .set members => members.all Scalar.hasText
  | .map es => entriesHaveText es
  | .loop _ => true

/-- Whether all elements of a list have a text. -/
def itemsHaveText : List Data → Bool
  | [] => true
  | d :: rest => d.hasText && itemsHaveText rest

/-- Whether all keys and values of a mapping have a text. -/
def entriesHaveText : List (Scalar × Data) → Bool
  | [] => true
  | (k, d) :: rest => k.hasText && d.hasText && entriesHaveText rest
end

/-- A value shown on its own, if it has a text. -/
def plainText (d : Data) : Except Failure String :=
  if d.hasText then .ok d.shown else .error tooManyDigits

mutual
/-- The value with every key of a mapping turned into its text. Of keys
that share a text the last one's value stands at the first one's place. A
value that holds itself has no end. -/
def withTextKeys : Data → Except Failure Data
  | .map es => do return .map (Entries.ofList (← entriesWithTextKeys es))
  | .list items => do return .list (← itemsWithTextKeys items)
  | .loop _ => .error .endless
  | d => .ok d

/-- The elements of a list with texts for keys. -/
def itemsWithTextKeys : List Data → Except Failure (List Data)
  | [] => .ok []
  | d :: rest => do return (← d.withTextKeys) :: (← itemsWithTextKeys rest)

/-- The entries of a mapping with texts for keys. -/
def entriesWithTextKeys : List (Scalar × Data) → Except Failure (List (Scalar × Data))
  | [] => .ok []
  | (k, d) :: rest => do
    let name ← k.plainText
    return (.str name, ← d.withTextKeys) :: (← entriesWithTextKeys rest)
end

end Data

end ApiMock
