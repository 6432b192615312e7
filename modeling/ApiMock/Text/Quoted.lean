import ApiMock.Text.Digit
import ApiMock.Text.Point
import ApiMock.Text.Printable
/-!
# Text — quoted texts

How messages show a text between quotes. Single quotes are used unless
the text has single quotes and no double ones. The quote in use, the
backslash and everything that cannot be printed are escaped, by letter
for tab and line breaks and by code point otherwise.
-/

namespace ApiMock

namespace Text

/-- The quote around a text: single, unless only single quotes occur in it. -/
def quoteFor (cs : List Char) : Char :=
  if cs.contains '\'' && !cs.contains '"' then '"' else '\''

/-- A character that cannot be printed, by its code point in the fewest
of two, four or eight hexadecimal digits. -/
def escapePoint (n : Nat) : List Char :=
  if n < 0x100 then '\\' :: 'x' :: hex 2 n
  else if n < 0x10000 then '\\' :: 'u' :: hex 4 n
  else '\\' :: 'U' :: hex 8 n

/-- One character inside quotes. -/
def quoteChar (quote c : Char) : List Char :=
  if c = quote || c = '\\' then ['\\', c]
  else if c = '\t' then ['\\', 't']
  else if c = '\n' then ['\\', 'n']
  else if c = '\r' then ['\\', 'r']
  else if isPrintable c then [c]
  else escapePoint c.toNat

/-- One code point inside quotes. -/
def quotePoint (quote : Char) (n : Nat) : List Char :=
  if isHalf n then escapePoint n else quoteChar quote (Char.ofNat n)

/-- Code points between quotes. -/
def quotedPoints (ns : List Nat) : String :=
  let quote := quoteFor (ns.map Char.ofNat)
  String.ofList (quote :: ns.flatMap (quotePoint quote) ++ [quote])

/-- A text between quotes. -/
def quoted (s : String) : String :=
  quotedPoints (points s.toList)

/-- One byte of a byte string inside quotes; only ASCII is shown as it is. -/
def quoteByte (quote : Char) (b : UInt8) : List Char :=
  let c := Char.ofNat b.toNat
  if b.toNat < 0x80 then quoteChar quote c else escapePoint b.toNat

/-- A byte string between quotes, marked as such. -/
def quotedBytes (bytes : List UInt8) : String :=
  let quote := quoteFor (bytes.map fun b => Char.ofNat b.toNat)
  String.ofList ('b' :: quote :: bytes.flatMap (quoteByte quote) ++ [quote])

end Text

end ApiMock
