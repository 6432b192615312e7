import ApiMock.Text.Split
import ApiMock.Yaml.Moment
/-!
# Yaml — tags

A tag says what a node stands for. A scalar without quotes and without a
tag gets its tag from its form: words for truth values and for null,
numerals, days and times. Whatever has no such form is a text.
-/

namespace ApiMock

namespace Yaml

open Text (cut)

/-- What a node stands for. A node with any `other` tag stands for
nothing. -/
inductive Tag where
  | null
  | bool
  | int
  | float
  | binary
  | timestamp
  | str
  | seq
  | map
  | set
  | omap
  | pairs
  | merge
  | value
  | other
  deriving DecidableEq, Repr

namespace Tag

/-- What the names of the standard tags begin with. -/
def standard : String := "tag:yaml.org,2002:"

/-- The standard tags by name. -/
def names : List (String × Tag) :=
  [("null", null), ("bool", bool), ("int", int), ("float", float), ("binary", binary),
   ("timestamp", timestamp), ("str", str), ("seq", seq), ("map", map), ("set", set),
   ("omap", omap), ("pairs", pairs), ("merge", merge), ("value", value)]

/-- The tag with a full name. -/
def ofText (text : String) : Tag :=
  ((names.find? fun n => standard ++ n.1 = text).map Prod.snd).getD other

/-! ## Forms of scalars -/

/-- A digit or an underscore. -/
def isSpacedDigit (c : Char) : Bool :=
  c.isDigit || c = '_'

/-- A text without one sign in front. -/
def unsigned (cs : List Char) : List Char :=
  match cs with
  | '-' :: rest => rest
  | '+' :: rest => rest
  | cs => cs

/-- At least one character, and all of them satisfy a test. -/
def isRow (p : Char → Bool) (cs : List Char) : Bool :=
  !cs.isEmpty && cs.all p

/-- A digit and then digits and underscores. -/
def isNumeral (cs : List Char) : Bool :=
  cs.head?.any Char.isDigit && cs.all isSpacedDigit

/-- One or two digits below sixty. -/
def isSixtieth (cs : List Char) : Bool :=
  match cs with
  | [c] => c.isDigit
  | [c, d] => '0' ≤ c && c ≤ '5' && d.isDigit
  | _ => false

/-- A numeral and sixtieths behind colons, at least one. -/
def isSexagesimal (cs : List Char) : Bool :=
  match cut ':' cs with
  | whole :: first :: more => isNumeral whole && (first :: more).all isSixtieth
  | _ => false

/-- The form of a whole number: binary, octal, decimal, hexadecimal or to
the base sixty. -/
def isIntForm (text : List Char) : Bool :=
  let cs := unsigned text
  match cs with
  | ['0'] => true
  | '0' :: 'b' :: rest => isRow (fun c => c = '0' || c = '1' || c = '_') rest
  | '0' :: 'x' :: rest => isRow (fun c => (Text.hexValue? c).isSome || c = '_') rest
  | '0' :: rest => isRow (fun c => ('0' ≤ c && c ≤ '7') || c = '_') rest
  | _ => isNumeral cs || isSexagesimal cs

/-- An exponent with its sign, or nothing. -/
def isExponent (cs : List Char) : Bool :=
  match cs with
  | [] => true
  | e :: s :: digits =>
    (e = 'e' || e = 'E') && (s = '+' || s = '-') && isRow Char.isDigit digits
  | _ => false

/-- Digits and an exponent behind a point. -/
def isFraction (cs : List Char) : Bool :=
  isExponent (cs.dropWhile isSpacedDigit)

/-- The form of a floating-point value: with a point, or the name of an
infinity or of not-a-number. -/
def isFloatForm (text : List Char) : Bool :=
  let (whole, rest) := (unsigned text).span (· ≠ '.')
  match rest with
  | '.' :: tail =>
    (isNumeral whole && isFraction tail) ||
      (isSexagesimal whole && tail.all isSpacedDigit) ||
      (text.head? = some '.' && isNumeral (tail.takeWhile isSpacedDigit) && isFraction tail) ||
      (whole.isEmpty && ["inf", "Inf", "INF"].contains (String.ofList tail)) ||
      (text.head? = some '.' && ["nan", "NaN", "NAN"].contains (String.ofList tail))
  | _ => false

/-- The words for truth values. -/
def truthWords : List String :=
  ["yes", "Yes", "YES", "no", "No", "NO", "true", "True", "TRUE", "false", "False", "FALSE",
   "on", "On", "ON", "off", "Off", "OFF"]

/-- The words for null. -/
def nullWords : List String := ["~", "null", "Null", "NULL"]

/-- A text without one line feed at its end. -/
def withoutLineFeed (cs : List Char) : List Char :=
  match cs.reverse with
  | '\n' :: rest => rest.reverse
  | _ => cs

/-- The tag that the form of a scalar gives it. -/
def ofForm (text : String) : Tag :=
  if text.isEmpty then null
  else
    let cs := withoutLineFeed text.toList
    let word := String.ofList cs
    if truthWords.contains word then bool
    else if isFloatForm cs then float
    else if isIntForm cs then int
    else if word = "<<" then merge
    else if nullWords.contains word then null
    else if (Moment.ofText? cs).any Moment.isRecognised then timestamp
    else if word = "=" then value
    else if word = "!" || word = "&" || word = "*" then other
    else str

end Tag

end Yaml

end ApiMock
