import ApiMock.Number.Binary64
/-!
# Number — decimal texts

A finite value is written with the fewest digits that read back as it.
The reals that round to a value `m · 2^q` form an interval around it, closed
if `m` is even. On the grid of decimals with `n` digits the candidates
are the two neighbours of the value; the first `n` for which one of them
lies in the interval wins, and of two the nearer one.

A `Layout` says for which places of the leading digit the positional form
is used and how the exponent of the other form looks. Two layouts occur:
the one of generated files and messages, and the compact one of the
printed configuration.
-/

namespace ApiMock

/-! ## Shortest decimals -/

/-- A positive decimal `digits · 10^exponent`. -/
structure Decimal where
  digits : Nat
  exponent : Int
  deriving DecidableEq, Repr, Inhabited

namespace Decimal

/-- The digits of a number, most significant first. -/
def digitsOf (n : Nat) : List Char :=
  Nat.toDigits 10 n

/-- The decimal without zeros at the end of its digits. -/
def normalize : (fuel : Nat) → Decimal → Decimal
  | 0, d => d
  | fuel + 1, d =>
    if d.digits ≠ 0 ∧ d.digits % 10 = 0 then normalize fuel ⟨d.digits / 10, d.exponent + 1⟩ else d

/-- How `digits · 10^exponent` compares with `count · 2^power`. -/
def compareTo (d : Decimal) (count : Nat) (power : Int) : Ordering :=
  let left := d.digits * tenTo d.exponent.toNat * twoTo (-power).toNat
  let right := count * twoTo power.toNat * tenTo (-d.exponent).toNat
  compare left right

/-- The reals that round to a value, as bounds counted in quarters of its
last place; the bounds belong to it if `closed`. -/
structure Interval where
  low : Nat
  mid : Nat
  high : Nat
  power : Int
  closed : Bool

/-- The interval of the finite positive value `m · 2^q`. Below a power of
two the next value is only half as far away. -/
def intervalOf (m : Nat) (q : Int) : Interval :=
  { low := if m = twoTo 52 ∧ -1074 < q then 4 * m - 1 else 4 * m - 2
    mid := 4 * m
    high := 4 * m + 2
    power := q - 2
    closed := m % 2 = 0 }

/-- The decimal lies in the interval. -/
def liesIn (d : Decimal) (i : Interval) : Bool :=
  let above := d.compareTo i.low i.power
  let under := d.compareTo i.high i.power
  (above = .gt || (i.closed && above = .eq)) && (under = .lt || (i.closed && under = .eq))

/-- The whole part of `count · 2^power / 10^exponent`. -/
def floorAt (count : Nat) (power exponent : Int) : Nat :=
  (count * twoTo power.toNat * tenTo (-exponent).toNat) /
    (twoTo (-power).toNat * tenTo exponent.toNat)

/-- Of two grid neighbours the nearer one to the middle; a tie goes to
the even one. -/
def nearer (lower upper : Decimal) (i : Interval) : Decimal :=
  match Decimal.compareTo ⟨lower.digits + upper.digits, lower.exponent⟩ (2 * i.mid) i.power with
  | .gt => lower
  | .lt => upper
  | .eq => if lower.digits % 2 = 0 then lower else upper

/-- The best decimal on the grid of multiples of `10^exponent`, if one of
the value's neighbours there reads back. -/
def onGrid? (i : Interval) (exponent : Int) : Option Decimal :=
  let n := floorAt i.mid i.power exponent
  let lower : Decimal := ⟨n, exponent⟩
  let upper : Decimal := ⟨n + 1, exponent⟩
  match lower.liesIn i && 0 < n, upper.liesIn i with
  | true, true => some (nearer lower upper i)
  | true, false => some lower
  | false, true => some upper
  | false, false => none

/-- The place of the leading decimal digit of a positive value. -/
def leadingPlace (i : Interval) : Int :=
  let estimate : Int := ((i.mid.log2 : Int) + i.power) * 30103 / 100000
  if 10 ≤ floorAt i.mid i.power estimate then estimate + 1
  else if floorAt i.mid i.power estimate = 0 then estimate - 1
  else estimate

/-- Tries ever finer grids. Seventeen digits always suffice. -/
def search (i : Interval) (place : Int) : (grids : Nat) → Decimal
  | 0 => ⟨floorAt i.mid i.power (place - 16), place - 16⟩
  | grids + 1 =>
    match onGrid? i (place - (16 - grids : Nat)) with
    | some d => d.normalize 20
    | none => search i place grids

end Decimal

/-- The shortest decimal that reads back as a finite value other than
zero, its sign aside. -/
def Binary64.shortest (x : Binary64) : Decimal :=
  let i := Decimal.intervalOf x.coefficient x.exponent
  Decimal.search i (Decimal.leadingPlace i) 17

/-! ## Layouts -/

namespace Number

/-- The choices of a number format. The positional form is used while the
place of the leading digit lies between the two bounds. -/
structure Layout where
  least : Int
  most : Int
  exponentSign : Bool
  exponentWidth : Nat

/-- Positional from `0.0001` to below `10^16`; otherwise an exponent with
sign and at least two digits. -/
def plainLayout : Layout := ⟨-4, 15, true, 2⟩

/-- Positional from `0.00001` to below `10^16`; otherwise a bare exponent. -/
def compactLayout : Layout := ⟨-5, 15, false, 1⟩

/-- The exponent behind the letter. -/
def exponentText (layout : Layout) (e : Int) : List Char :=
  let digits := Decimal.digitsOf e.natAbs
  let sign := if e < 0 then ['-'] else if layout.exponentSign then ['+'] else []
  sign ++ List.replicate (layout.exponentWidth - digits.length) '0' ++ digits

/-- A decimal as text. A whole number keeps one zero behind the point in
the positional form. -/
def decimalText (layout : Layout) (d : Decimal) : List Char :=
  let digits := Decimal.digitsOf d.digits
  let place : Int := d.exponent + digits.length - 1
  if layout.least ≤ place ∧ place ≤ layout.most then
    if 0 ≤ d.exponent then digits ++ List.replicate d.exponent.toNat '0' ++ ['.', '0']
    else if 0 ≤ place then
      digits.take (place.toNat + 1) ++ '.' :: digits.drop (place.toNat + 1)
    else '0' :: '.' :: List.replicate ((-place).toNat - 1) '0' ++ digits
  else
    let tail := digits.drop 1
    digits.take 1 ++ (if tail.isEmpty then [] else '.' :: tail) ++
      'e' :: exponentText layout place

/-- A finite value as text. -/
def finiteText (layout : Layout) (x : Binary64) : List Char :=
  (if x.isNegative then ['-'] else []) ++
    (if x.coefficient = 0 then ['0', '.', '0'] else decimalText layout x.shortest)

/-- A value in the plain layout; `nan`, `inf` and `-inf` by name. -/
def plainText (x : Binary64) : String :=
  if x.isNaN then "nan"
  else if x.isInfinite then (if x.isNegative then "-inf" else "inf")
  else String.ofList (finiteText plainLayout x)

end Number

end ApiMock
