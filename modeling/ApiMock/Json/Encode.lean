import ApiMock.Data.Basic
import ApiMock.Data.Shown
import ApiMock.Json.Printer
import ApiMock.Sorting.Pile
/-!
# JSON — document values as JSON

Which document values have a JSON text and what it is. Texts, numbers,
truth values and null stand for themselves, pairs and lists are arrays
and mappings are objects; days, points in time, bytes and sets have none,
nor has a value that holds itself or a number of too many digits.
Keys that are no texts become the JSON text of their value, after sorting
if the keys are sorted.

Keys are sorted where an object is written for good: texts by code points,
numbers by value. What is not a number stands below nothing, so where one
of these is among the keys the way of sorting decides.
-/

namespace ApiMock

namespace Json

/-! ## The order of keys -/

variable {α : Type}

/-- The kinds of keys that can be sorted among themselves. -/
inductive KeyKind where
  | text
  | number
  | other
  deriving DecidableEq

/-- The kind of a key. -/
def keyKind : Scalar → KeyKind
  | .str _ => .text
  | .bool _ | .int _ | .float _ => .number
  | _ => .other

/-- The order of two numbers; not-a-number stands below nothing. -/
def numberBelow (s t : Scalar) : Bool :=
  match s, t with
  | .float x, .float y => x.below y
  | .float x, t =>
    !x.isNaN && t.int?.any fun n =>
      if x.isInfinite then x.isNegative else x.units < n * Binary64.unitsPerOne
  | s, .float y =>
    !y.isNaN && s.int?.any fun n =>
      if y.isInfinite then !y.isNegative else n * Binary64.unitsPerOne < y.units
  | s, t => (s.int?.getD 0) < (t.int?.getD 0)

/-- The order of two keys of one kind: texts by code points, numbers by value. -/
def keyBelow (s t : Scalar) : Bool :=
  match s, t with
  | .str a, .str b => Text.below a b
  | s, t => numberBelow s t

/-- Entries in the order of their keys. Keys of different kinds have no
order, and a key of a kind without one must be alone. -/
def sortEntries (es : List (Scalar × α)) : Except Failure (List (Scalar × α)) :=
  match es with
  | [] => .ok []
  | [e] => .ok [e]
  | e :: rest =>
    let kind := keyKind e.1
    if kind ≠ .other && rest.all fun r => keyKind r.1 = kind then
      .ok (Sorting.sort (fun a b => keyBelow a.1 b.1) es)
    else .error .mixedKeys

/-! ## Values as JSON -/

/-- The text of a key. -/
def keyText : Scalar → Except Failure String
  | .str s => .ok s
  | .null => .ok "null"
  | .bool b => .ok (if b then "true" else "false")
  | .int n => if Number.hasText n then .ok (toString n) else .error tooManyDigits
  | .float x => .ok (floatText x)
  | _ => .error .notJson

/-- A scalar as JSON. -/
def ofScalar : Scalar → Except Failure Json
  | .null => .ok null
  | .bool b => .ok (bool b)
  | .int n => if Number.hasText n then .ok (int n) else .error tooManyDigits
  | .float x => .ok (float x)
  | .str s => .ok (str s)
  | _ => .error .notJson

/-- What stops a value that holds itself. -/
def circular : Failure := .badValue "Circular reference detected"

/-- Entries with texts for keys, sorted by key first if `sorted`. The
first entry that has no JSON text is the one that stops it, its key before
its value. -/
def keyed (sorted : Bool) (es : List (Scalar × Except Failure Json)) :
    Except Failure (List (String × Json)) := do
  let es ← if sorted then sortEntries es else pure es
  es.mapM fun e => return (← keyText e.1, ← e.2)

mutual
/-- A value as JSON, with sorted keys if `sorted`. -/
def ofData (sorted : Bool) : Data → Except Failure Json
  | .scalar s => ofScalar s
  | .list items => arr <$> ofItems sorted items
  | .pair a b => do return arr [← ofData sorted a, ← ofData sorted b]
  | .set _ => .error .notJson
  | .map es => obj <$> keyed sorted (ofEntries sorted es)
  | .loop _ => .error circular

/-- The elements of a list as JSON. -/
def ofItems (sorted : Bool) : List Data → Except Failure (List Json)
  | [] => .ok []
  | d :: rest => do return (← ofData sorted d) :: (← ofItems sorted rest)

/-- The values of a mapping as JSON, as far as they have one, with their
keys. -/
def ofEntries (sorted : Bool) : List (Scalar × Data) → List (Scalar × Except Failure Json)
  | [] => []
  | (k, d) :: rest => (k, ofData sorted d) :: ofEntries sorted rest
end

mutual
/-- The document value that a JSON value writes. -/
def toData : Json → Data
  | null => Data.null
  | bool b => Data.bool b
  | int n => Data.int n
  | float x => .scalar (.float x)
  | str s => Data.str s
  | arr items => .list (itemsToData items)
  | obj es => .map (entriesToData es)

/-- The elements of an array as document values. -/
def itemsToData : List Json → List Data
  | [] => []
  | j :: rest => j.toData :: itemsToData rest

/-- The entries of an object as document values. -/
def entriesToData : List (String × Json) → List (Scalar × Data)
  | [] => []
  | (k, j) :: rest => (.str k, j.toData) :: entriesToData rest
end

/-! ## Inside a script -/

/-- Characters that could end a script element or a quoted attribute are
written as escapes. -/
def escapeMarkup (c : Char) : List Char :=
  if c = '<' || c = '>' || c = '&' || c = '\'' then escapeUnit c.toNat else [c]

/-- A JSON text made safe to stand in a script. -/
def guardMarkup (s : String) : String :=
  String.ofList (s.toList.flatMap escapeMarkup)

/-- A value as a literal of a generated file, on one line. -/
def literal (d : Data) : Except Failure String := do
  return guardMarkup (← ofData true d).render

/-- A value as a literal of a generated file, over several lines. -/
def literalBlock (d : Data) : Except Failure String := do
  return guardMarkup (← ofData true d).pretty

end Json

end ApiMock
