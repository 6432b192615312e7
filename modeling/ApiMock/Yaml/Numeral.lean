import ApiMock.Failure
import ApiMock.Number.Lenient
import ApiMock.Text.Case
import ApiMock.Text.Quoted
import ApiMock.Text.Split
/-!
# Yaml — numerals

The numbers that scalars write. Underscores do not count. A whole number
is written to the base two, eight, ten, sixteen or sixty; a
floating-point value to the base ten or sixty, or by name.
-/

namespace ApiMock

namespace Yaml

namespace Numeral

open Text (cut)
open Number (foreignInt? foreignFloat? mostDigits)

/-- Why a numeral of too many digits is refused. -/
def tooLongReason (count : Nat) : String :=
  s!"Exceeds the limit ({mostDigits} digits) for integer string conversion: value has {count} " ++
    "digits; use sys.set_int_max_str_digits() to increase the limit"

/-- The most characters of a text that a reason shows, quotes included. -/
def mostShown : Nat := 200

/-- Why a text is refused as a whole number. -/
def notIntReason (base : Nat) (cs : List Char) : String :=
  s!"invalid literal for int() with base {base}: " ++
    String.ofList ((Text.quoted (String.ofList cs)).toList.take mostShown)

/-- Why a text is refused as a floating-point value. -/
def notFloatReason (cs : List Char) : String :=
  "could not convert string to float: " ++ Text.quoted (String.ofList cs)

/-- How many decimal digits a numeral starts with, whatever follows them. -/
def leadingDigits (cs : List Char) : Nat :=
  let run := (Number.signed (Number.plain cs)).2.takeWhile fun c => c.isDigit || c = '_'
  ((Number.groupedDigits? run).map List.length).getD 0

/-- A whole number in a base. Too many decimal digits are refused before
anything else. -/
def whole (base : Nat) (cs : List Char) : Except Failure Int :=
  let count := leadingDigits cs
  if base = 10 && mostDigits < count then .error (.badValue (tooLongReason count))
  else
    match foreignInt? base cs with
    | some n => .ok n
    | none => .error (.badValue (notIntReason base cs))

/-- Whether a sign makes a numeral negative, and the numeral without it. -/
def sign (cs : List Char) : Except Failure (Bool × List Char) :=
  match cs with
  | [] => .error .missingIndex
  | '-' :: rest => .ok (true, rest)
  | '+' :: rest => .ok (false, rest)
  | cs => .ok (false, cs)

/-- Digits to the base sixty, the greatest first. -/
def ofSixtieths (digits : List Int) : Int :=
  digits.foldl (fun n d => 60 * n + d) 0

/-- A whole number without its sign. -/
def unsignedInt (cs : List Char) : Except Failure Int :=
  match cs with
  | [] => .error .missingIndex
  | ['0'] => .ok 0
  | '0' :: 'b' :: rest => whole 2 rest
  | '0' :: 'x' :: rest => whole 16 rest
  | '0' :: _ => whole 8 cs
  | _ =>
    if cs.contains ':' then do return ofSixtieths (← (cut ':' cs).mapM (whole 10))
    else whole 10 cs

/-- The whole number that a scalar writes. -/
def int (text : String) : Except Failure Int := do
  let (negative, cs) ← sign (text.toList.filter (· ≠ '_'))
  let n ← unsignedInt cs
  return if negative then -n else n

/-- A floating-point value to the base ten. -/
def real (cs : List Char) : Except Failure Binary64 :=
  match foreignFloat? cs with
  | some x => .ok x
  | none => .error (.badValue (notFloatReason cs))

/-- The sum of digits to the base sixty, the least first, rounded at every
step. A power beyond the range of floating-point values is refused. -/
def sumOfSixtieths (power : Nat) (sum : Binary64) : List Binary64 → Except Failure Binary64
  | [] => .ok sum
  | d :: rest =>
    let scale := Binary64.ofInt power
    if scale.isFinite then sumOfSixtieths (60 * power) (sum.add (d.mul scale)) rest
    else .error .overflow

/-- The name of what is not a number. -/
def nanName : List Char := ".nan".toList

/-- A floating-point value without its sign. -/
def unsignedFloat (cs : List Char) : Except Failure Binary64 :=
  if cs = ".inf".toList then .ok (Binary64.infinity false)
  else if cs = nanName then .ok Binary64.nan
  else if cs.contains ':' then do
    sumOfSixtieths 1 (Binary64.zero false) (← (cut ':' cs).mapM real).reverse
  else real cs

/-- The floating-point value that a scalar writes. What is not a number
by its name is always the same; what comes out as not a number is told
from all others by a serial. -/
def float (serial : Nat) (text : String) : Except Failure Binary64 := do
  let (negative, cs) ← sign (Text.lowerFrom false (text.toList.filter (· ≠ '_')))
  let x ← unsignedFloat cs
  return if cs = nanName then x
    else if x.isNaN then Binary64.nanOf serial
    else if negative then x.neg else x

end Numeral

end Yaml

end ApiMock
