import ApiMock.Number.Binary64
import ApiMock.Text.Split
import ApiMock.Text.Digit
/-!
# Number — reading numerals

Numerals with underscores between digits and a sign in front. A numeral
of a floating-point value may have a point, an exponent, or be the name
of an infinity or of not-a-number; the value nearest to what it writes is
taken. Numerals of strangers, `foreignInt?` and `foreignFloat?`, may also
use the digits of other scripts and stand between spaces.
-/

namespace ApiMock

namespace Number

open Text (runs trim isSpace digitValue? hexValue?)

/-- The digits of a numeral without its underscores, each of which must
stand between two digits. -/
def grouped? (isDigit : Char → Bool) (cs : List Char) : Option (List Char) :=
  let groups := runs (· ≠ '_') cs
  let digits := groups.flatten
  if digits.all isDigit && !digits.isEmpty && digits.length + groups.length = cs.length + 1 then
    some digits
  else none

/-- The decimal digits of a numeral without its underscores. -/
def groupedDigits? (cs : List Char) : Option (List Char) :=
  grouped? Char.isDigit cs

/-- The number that decimal digits write. -/
def ofDigits (digits : List Char) : Nat :=
  digits.foldl (fun n c => 10 * n + (c.toNat - 48)) 0

/-- A sign, if there is one, and what follows it. -/
def signed (cs : List Char) : Bool × List Char :=
  match cs with
  | '-' :: rest => (true, rest)
  | '+' :: rest => (false, rest)
  | cs => (false, cs)

/-- A whole number with a sign. -/
def withSign (negative : Bool) (n : Nat) : Int :=
  if negative then -n else n

/-- A part of a numeral that may be empty. -/
def optionalDigits? (cs : List Char) : Option (List Char) :=
  if cs.isEmpty then some [] else groupedDigits? cs

/-- The exponent behind its letter; zero if there is none. -/
def exponent? (cs : List Char) : Option Int :=
  match cs with
  | [] => some 0
  | _ :: rest =>
    let (negative, digits) := signed rest
    (groupedDigits? digits).map fun ds => withSign negative (ofDigits ds)

/-- The value that digits with a point and an exponent write. -/
def decimal? (negative : Bool) (cs : List Char) : Option Binary64 := do
  let (mantissa, tail) := cs.span fun c => c ≠ 'e' && c ≠ 'E'
  let (whole, fraction) := mantissa.span (· ≠ '.')
  let whole ← optionalDigits? whole
  let fraction ← optionalDigits? (fraction.drop 1)
  let exponent ← exponent? tail
  if whole.isEmpty && fraction.isEmpty then none
  else return Binary64.ofDecimal negative (ofDigits (whole ++ fraction)) (exponent - fraction.length)

/-- The floating-point value that a numeral writes. -/
def float? (cs : List Char) : Option Binary64 :=
  let (negative, rest) := signed cs
  let word := String.ofList (rest.map Char.toLower)
  if word = "inf" || word = "infinity" then some (Binary64.infinity negative)
  else if word = "nan" then some Binary64.nan
  else decimal? negative rest

/-! ## Other scripts and other bases -/

/-- A decimal digit of any script as the ASCII digit of its value. -/
def asciiDigit (c : Char) : Char :=
  match digitValue? c with
  | some n => Char.ofNat (48 + n)
  | none => c

/-- A numeral without the spaces around it and with ASCII digits. -/
def plain (cs : List Char) : List Char :=
  (trim isSpace cs).map asciiDigit

/-- The floating-point value that a numeral of any script writes. -/
def foreignFloat? (cs : List Char) : Option Binary64 :=
  float? (plain cs)

/-- A digit of a base up to sixteen. -/
def isDigitOf (base : Nat) (c : Char) : Bool :=
  (hexValue? c).any (· < base)

/-- The number that digits of a base write. -/
def ofDigitsOf (base : Nat) (digits : List Char) : Nat :=
  digits.foldl (fun n c => base * n + (hexValue? c).getD 0) 0

/-- The letters that mark a base behind a zero. -/
def markers (base : Nat) : List Char :=
  if base = 2 then ['b', 'B'] else if base = 8 then ['o', 'O'] else if base = 16 then ['x', 'X'] else []

/-- A numeral without the mark of its base. One underscore may follow the
mark. -/
def withoutMarker (base : Nat) (cs : List Char) : List Char :=
  match cs with
  | '0' :: letter :: rest =>
    if (markers base).contains letter then
      match rest with
      | '_' :: digits => digits
      | digits => digits
    else cs
  | cs => cs

/-- The whole number that a numeral of any script writes in a base. -/
def foreignInt? (base : Nat) (cs : List Char) : Option Int :=
  let (negative, rest) := signed (plain cs)
  (grouped? (isDigitOf base) (withoutMarker base rest)).map fun ds =>
    withSign negative (ofDigitsOf base ds)

end Number

end ApiMock
