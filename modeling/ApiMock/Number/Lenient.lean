import ApiMock.Number.Reading
/-!
# Number — lenient numerals

Numerals as settings are typed. A whole number that is written as it
should be is taken as it is. Any other is cleaned first: the blanks around
it, a plus sign, the zeros in front, a point with nothing but zeros behind
it, and single underscores go away. What is left must be a whole number as
it should be.

A floating-point value may have blanks around it or underscores inside,
but not both.
-/

namespace ApiMock

namespace Number

open Text (trim isSpace)

/-- What a text is as a whole number. -/
inductive WholeReading where
  | value (n : Int)
  /-- More digits than a text may have. -/
  | tooLong
  | unreadable
  deriving DecidableEq, Repr

/-- A whole number as it should be: a minus sign or none, and digits that
do not start with a zero in front of others. -/
def strictInt (cs : List Char) : WholeReading :=
  let (negative, digits) := match cs with
    | '-' :: rest => (true, rest)
    | cs => (false, cs)
  match digits with
  | [] => .unreadable
  | ['0'] => .value 0
  | first :: _ =>
    if !first.isDigit || first = '0' then .unreadable
    else if mostDigits < (digits.takeWhile Char.isDigit).length then .tooLong
    else if digits.all Char.isDigit then .value (withSign negative (ofDigits digits))
    else .unreadable

/-- What follows zeros and underscores. `before` is the character in front
of it, which stays if a point follows and if nothing does. -/
def afterZeros? (before : Char) : List Char → Option (List Char)
  | [] => some [before]
  | c :: rest =>
    if c = '0' || c = '_' then afterZeros? c rest
    else if c.isDigit || c = '-' then some (c :: rest)
    else if c = '.' then some (before :: c :: rest)
    else none

/-- A numeral without the zeros in front. -/
def withoutZeros? (cs : List Char) : Option (List Char) :=
  match cs with
  | [] => none
  | '0' :: rest => afterZeros? '0' rest
  | c :: rest => if c.isDigit then some (c :: rest) else none

/-- A numeral without a sign that counts for nothing, and without the
zeros in front. -/
def withoutPlus? (cs : List Char) : Option (List Char) :=
  match cs with
  | '+' :: rest => withoutZeros? rest
  | '-' :: rest => (withoutZeros? rest).map ('-' :: ·)
  | cs => withoutZeros? cs

/-- A numeral without a point that only zeros follow. -/
def withoutFraction (cs : List Char) : List Char :=
  match (cs.dropWhile (· ≠ '.')).drop 1 with
  | [] => cs
  | tail => if tail.all (· = '0') then cs.takeWhile (· ≠ '.') else cs

/-- Two underscores stand next to each other. -/
def hasDoubleUnderscore : List Char → Bool
  | '_' :: '_' :: _ => true
  | _ :: rest => hasDoubleUnderscore rest
  | [] => false

/-- A numeral without its underscores; none of them may stand at an end or
next to another. -/
def withoutUnderscores? (cs : List Char) : Option (List Char) :=
  if cs.head? = some '_' || cs.getLast? = some '_' || hasDoubleUnderscore cs then none
  else some (cs.filter (· ≠ '_'))

/-- A whole number as it is typed. -/
def lenientInt (cs : List Char) : WholeReading :=
  match strictInt cs with
  | .unreadable =>
    match (withoutPlus? (trim isSpace cs)).map withoutFraction with
    | some digits => strictInt ((withoutUnderscores? digits).getD digits)
    | none => .unreadable
  | r => r

/-! ## Floating-point values -/

/-- A floating-point value without blanks and underscores. -/
def strictFloat? (cs : List Char) : Option Binary64 :=
  if cs.contains '_' then none else float? cs

/-- A floating-point value as it is typed. -/
def lenientFloat? (cs : List Char) : Option Binary64 :=
  match strictFloat? (trim isSpace cs) with
  | some x => some x
  | none => (withoutUnderscores? cs).bind strictFloat?

end Number

end ApiMock
