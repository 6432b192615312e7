/-!
# Number — binary64

Powers of the two bases that numbers are read and written in come first:
two for the bits of a value, ten for its digits. A whole number has a text
only up to so many digits.

Floating-point values are their 64 bits. A finite value is `± m · 2^q`
with `m < 2^53` and `q ≥ -1074`, so it is a whole multiple of the least
positive value `2^-1074`; `units` counts these. Order and equality are
those of the counts, and every operation takes an exact quotient and
rounds it once, to the nearest value, a tie to the even coefficient.
-/

namespace ApiMock

/-! ## Powers -/

/-- A power of two. -/
def twoTo (n : Nat) : Nat := Nat.pow 2 n

/-- A power of ten. -/
def tenTo (n : Nat) : Nat := Nat.pow 10 n

namespace Number

/-- The most digits that a whole number may have in a text. -/
def mostDigits : Nat := 4300

/-- The least number with more digits. -/
def textBound : Nat := tenTo mostDigits

/-- A whole number has a text. -/
def hasText (n : Int) : Bool := n.natAbs < textBound

end Number

/-! ## Values by their bits -/

/-- A binary64 value, by its bits. -/
structure Binary64 where
  bits : UInt64
  deriving DecidableEq, Repr, Inhabited

namespace Binary64

/-- The sign bit is set. -/
def isNegative (x : Binary64) : Bool :=
  x.bits.toNat / twoTo 63 = 1

/-- The eleven exponent bits. -/
def exponentField (x : Binary64) : Nat :=
  x.bits.toNat / twoTo 52 % 2048

/-- The fifty-two bits after the point. -/
def fractionField (x : Binary64) : Nat :=
  x.bits.toNat % twoTo 52

/-- Neither infinite nor not-a-number. -/
def isFinite (x : Binary64) : Bool :=
  x.exponentField ≠ 2047

/-- Not a number. -/
def isNaN (x : Binary64) : Bool :=
  x.exponentField = 2047 && x.fractionField ≠ 0

/-- One of the two infinities. -/
def isInfinite (x : Binary64) : Bool :=
  x.exponentField = 2047 && x.fractionField = 0

/-- The coefficient `m` of a finite value. -/
def coefficient (x : Binary64) : Nat :=
  if x.exponentField = 0 then x.fractionField else twoTo 52 + x.fractionField

/-- The exponent `q` of a finite value. -/
def exponent (x : Binary64) : Int :=
  if x.exponentField = 0 then -1074 else (x.exponentField : Int) - 1075

/-- A finite value counted in units of `2^-1074`. -/
def units (x : Binary64) : Int :=
  let size : Int := ((x.coefficient * twoTo (x.exponent + 1074).toNat : Nat) : Int)
  if x.isNegative then -size else size

/-- One, counted in units of `2^-1074`. -/
def unitsPerOne : Nat := twoTo 1074

/-! ## Making values -/

/-- The value with this sign and these low sixty-three bits. -/
def ofMagnitude (negative : Bool) (magnitude : Nat) : Binary64 :=
  ⟨UInt64.ofNat ((if negative then twoTo 63 else 0) + magnitude)⟩

/-- Zero with a sign. -/
def zero (negative : Bool) : Binary64 := ofMagnitude negative 0

/-- Infinity with a sign. -/
def infinity (negative : Bool) : Binary64 := ofMagnitude negative (2047 * twoTo 52)

/-- Not a number. Each serial, as far as the fraction bits go, gives a
value of its own. -/
def nanOf (serial : Nat) : Binary64 :=
  ofMagnitude false (2047 * twoTo 52 + twoTo 51 + serial % twoTo 51)

/-- Not a number. -/
def nan : Binary64 := nanOf 0

/-- A quotient rounded to the nearest whole number, a tie to the even one. -/
def roundQuotient (num den : Nat) : Nat :=
  let whole := num / den
  let rest := 2 * (num % den)
  if rest < den then whole
  else if den < rest then whole + 1
  else whole + whole % 2

/-- The exponent of the leading bit of a positive quotient. -/
def leadingExponent (num den : Nat) : Int :=
  let estimate : Int := (num.log2 : Int) - (den.log2 : Int)
  let small :=
    if 0 ≤ estimate then num < den * twoTo estimate.toNat
    else num * twoTo (-estimate).toNat < den
  if small then estimate - 1 else estimate

/-- The value nearest to `± num / den`; beyond the greatest finite value,
infinity. The coefficient's carry runs into the exponent bits as it should. -/
def ofQuotient (negative : Bool) (num den : Nat) : Binary64 :=
  if num = 0 then zero negative
  else
    let q : Int := max (leadingExponent num den - 52) (-1074)
    let m :=
      if 0 ≤ q then roundQuotient num (den * twoTo q.toNat)
      else roundQuotient (num * twoTo (-q).toNat) den
    let magnitude := (q + 1074).toNat * twoTo 52 + m
    if magnitude < 2047 * twoTo 52 then ofMagnitude negative magnitude else infinity negative

/-- The value nearest to `± digits · 10^exponent`. Exponents far outside
the range are answered without computing the power. -/
def ofDecimal (negative : Bool) (digits : Nat) (exponent : Int) : Binary64 :=
  if digits = 0 then zero negative
  else
    let places : Int := (digits.log2 : Int) * 3 / 10
    if 320 < exponent + places then infinity negative
    else if exponent + places < -400 then zero negative
    else if 0 ≤ exponent then ofQuotient negative (digits * tenTo exponent.toNat) 1
    else ofQuotient negative digits (tenTo (-exponent).toNat)

/-- The value nearest to a whole number. -/
def ofInt (n : Int) : Binary64 :=
  ofQuotient (n < 0) n.natAbs 1

/-! ## Arithmetic and order -/

/-- The value equals a whole number. -/
def isInt (x : Binary64) (n : Int) : Bool :=
  x.isFinite && x.units = n * unitsPerOne

/-- The sum of two values, rounded once. Opposite infinities have none. -/
def add (x y : Binary64) : Binary64 :=
  if x.isNaN || y.isNaN then nan
  else if x.isInfinite then
    if y.isInfinite && x.isNegative != y.isNegative then nan else x
  else if y.isInfinite then y
  else
    let count := x.units + y.units
    ofQuotient (count < 0 || (count = 0 && x.isNegative && y.isNegative)) count.natAbs unitsPerOne

/-- The product of two values, rounded once. Zero and an infinity have
none. -/
def mul (x y : Binary64) : Binary64 :=
  let negative := x.isNegative != y.isNegative
  if x.isNaN || y.isNaN then nan
  else if x.isInfinite || y.isInfinite then
    if x.isInt 0 || y.isInt 0 then nan else infinity negative
  else ofQuotient negative (x.units * y.units).natAbs (unitsPerOne * unitsPerOne)

/-- The value with the other sign. -/
def neg (x : Binary64) : Binary64 :=
  ofMagnitude (!x.isNegative) (x.bits.toNat % twoTo 63)

/-- A place in the order of all values but not-a-number: the infinities
stand outside all counts. -/
def rank (x : Binary64) : Int :=
  if x.isInfinite then (if x.isNegative then -(twoTo 2200 : Nat) else (twoTo 2200 : Nat)) else x.units

/-- Equality as numbers: the two zeros are equal, not-a-number equals nothing. -/
def same (x y : Binary64) : Bool :=
  !x.isNaN && !y.isNaN && x.rank = y.rank

/-- The order of the numbers; not-a-number stands below nothing. -/
def below (x y : Binary64) : Bool :=
  !x.isNaN && !y.isNaN && x.rank < y.rank

/-- The whole number a value equals, if it equals one. -/
def toInt? (x : Binary64) : Option Int :=
  if x.isFinite && x.units % unitsPerOne = 0 then some (x.units / unitsPerOne) else none

end Binary64

end ApiMock
