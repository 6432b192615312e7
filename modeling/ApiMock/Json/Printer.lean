import ApiMock.Number.Binary64
import ApiMock.Number.Layout
import ApiMock.Text.Digit
import ApiMock.Text.Point
/-!
# JSON — values and their written form

A JSON value, with the entries of an object in written order, is what lies
between a document value and its JSON text.

It has two written forms. `render` is on one line, `, ` between
elements and `: ` behind keys; `pretty` puts every element on a line of
its own, indented by its depth. Texts are written in ASCII: everything
else is escaped in sixteen-bit units.
-/

namespace ApiMock

/-! ## Values -/

/-- A JSON value. Floating-point values include the three that are no
numbers of the standard. -/
inductive Json where
  | null
  | bool (b : Bool)
  | int (n : Int)
  | float (x : Binary64)
  | str (s : String)
  | arr (items : List Json)
  | obj (entries : List (String × Json))
  deriving Repr, Inhabited

/-! ## Written forms -/

namespace Json

open Text (hex points)

/-- A sixteen-bit unit as an escape. -/
def escapeUnit (n : Nat) : List Char :=
  '\\' :: 'u' :: hex 4 n

/-- The escapes that have a letter. -/
def letterEscape? (c : Char) : Option Char :=
  if c = '"' then some '"'
  else if c = '\\' then some '\\'
  else if c = '\n' then some 'n'
  else if c = '\r' then some 'r'
  else if c = '\t' then some 't'
  else if c.toNat = 8 then some 'b'
  else if c.toNat = 12 then some 'f'
  else none

/-- One code point of a text. -/
def escapePoint (n : Nat) : List Char :=
  match letterEscape? (Char.ofNat n) with
  | some l => ['\\', l]
  | none =>
    if 0x20 ≤ n ∧ n < 0x7f then [Char.ofNat n]
    else if n < 0x10000 then escapeUnit n
    else escapeUnit (0xd800 + (n - 0x10000) / 0x400) ++ escapeUnit (0xdc00 + (n - 0x10000) % 0x400)

/-- A text as a JSON text. -/
def quote (s : String) : String :=
  String.ofList ('"' :: (points s.toList).flatMap escapePoint ++ ['"'])

/-- One character of a text that may hold other characters than ASCII. -/
def escapeControl (c : Char) : List Char :=
  match letterEscape? c with
  | some l => ['\\', l]
  | none => if c.toNat < 0x20 then escapeUnit c.toNat else [c]

/-- A text as a JSON text with only quotes, backslashes and controls
escaped. A half of a character cannot stand in it. -/
def quoteUnicode? (s : String) : Option String :=
  (Text.chars? s.toList).map fun cs =>
    String.ofList ('"' :: Text.ofChars (cs.flatMap escapeControl) ++ ['"'])

/-- A floating-point value. -/
def floatText (x : Binary64) : String :=
  if x.isNaN then "NaN"
  else if x.isInfinite then (if x.isNegative then "-Infinity" else "Infinity")
  else Number.plainText x

/-- A value without parts. -/
def scalarText : Json → String
  | null => "null"
  | bool b => if b then "true" else "false"
  | int n => toString n
  | float x => floatText x
  | str s => quote s
  | arr _ => "[]"
  | obj _ => "\x7b\x7d"

mutual
/-- The value on one line. -/
def render : Json → String
  | arr items => "[" ++ String.intercalate ", " (renderItems items) ++ "]"
  | obj es => "\x7b" ++ String.intercalate ", " (renderEntries es) ++ "\x7d"
  | j => scalarText j

/-- The elements of an array on one line each. -/
def renderItems : List Json → List String
  | [] => []
  | j :: rest => j.render :: renderItems rest

/-- The entries of an object on one line each. -/
def renderEntries : List (String × Json) → List String
  | [] => []
  | (k, j) :: rest => (quote k ++ ": " ++ j.render) :: renderEntries rest
end

/-- A line break and the indentation of a depth, two blanks a level. -/
def newline (depth : Nat) : String :=
  String.ofList ('\n' :: List.replicate (2 * depth) ' ')

/-- The parts of a collection on lines of their own. -/
def block (opening closing : String) (depth : Nat) (parts : List String) : String :=
  if parts.isEmpty then opening ++ closing
  else
    opening ++ newline (depth + 1) ++
      String.intercalate ("," ++ newline (depth + 1)) parts ++ newline depth ++ closing

mutual
/-- The value over several lines, at a depth. -/
def prettyAt (depth : Nat) : Json → String
  | arr items => block "[" "]" depth (prettyItems (depth + 1) items)
  | obj es => block "\x7b" "\x7d" depth (prettyEntries (depth + 1) es)
  | j => scalarText j

/-- The elements of an array at a depth. -/
def prettyItems (depth : Nat) : List Json → List String
  | [] => []
  | j :: rest => j.prettyAt depth :: prettyItems depth rest

/-- The entries of an object at a depth. -/
def prettyEntries (depth : Nat) : List (String × Json) → List String
  | [] => []
  | (k, j) :: rest => (quote k ++ ": " ++ j.prettyAt depth) :: prettyEntries depth rest
end

/-- The value over several lines. -/
def pretty (j : Json) : String := j.prettyAt 0

end Json

end ApiMock
