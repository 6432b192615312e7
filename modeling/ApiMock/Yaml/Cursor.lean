/-!
# Yaml — places in a text

A cursor is a place in a text: what is left of it and where that starts.
Lines end at a line feed, a next-line character or one of the two Unicode
separators; the first two are read as the same break. A byte order mark
takes no column.
-/

namespace ApiMock

namespace Yaml

/-- A character that ends a line. -/
def isBreak (c : Char) : Bool :=
  c = '\n' || c = '\x85' || c = '\u2028' || c = '\u2029'

/-- A space or a tab. -/
def isWhite (c : Char) : Bool :=
  c = ' ' || c = '\t'

/-- The end of the text or of a line. -/
def isLineEnd (c : Option Char) : Bool :=
  c.all isBreak

/-- The end of the text or of a line, or a space. -/
def isSpaceOrEnd (c : Option Char) : Bool :=
  c.all fun c => c = ' ' || isBreak c

/-- The end of the text or of a line, a space or a tab. -/
def isGap (c : Option Char) : Bool :=
  c.all fun c => isWhite c || isBreak c

/-- A place in a text. -/
structure Cursor where
  rest : List Char
  index : Nat
  line : Nat
  column : Nat
  deriving Repr

namespace Cursor

/-- The start of a text. A byte order mark there is passed over. -/
def start (text : List Char) : Cursor :=
  match text with
  | '\uFEFF' :: rest => ⟨rest, 1, 0, 0⟩
  | rest => ⟨rest, 0, 0, 0⟩

/-- The character at a place. -/
def peek (c : Cursor) : Option Char :=
  c.rest.head?

/-- The character some places further on. -/
def peekAt (n : Nat) (c : Cursor) : Option Char :=
  c.rest[n]?

/-- The place behind the next character. -/
def next (c : Cursor) : Cursor :=
  match c.rest with
  | [] => c
  | ch :: rest =>
    if isBreak ch then ⟨rest, c.index + 1, c.line + 1, 0⟩
    else if ch = '\uFEFF' then ⟨rest, c.index + 1, c.line, c.column⟩
    else ⟨rest, c.index + 1, c.line, c.column + 1⟩

/-- The place behind the next `n` characters. -/
def skip : Nat → Cursor → Cursor
  | 0, c => c
  | n + 1, c => skip n c.next

/-- A bound for loops: one character more than is left. A loop that reads
something in every round takes no more rounds than this is long. -/
def bound (c : Cursor) : List Char :=
  '\n' :: c.rest

/-- The next characters that satisfy a test, and the place behind them. -/
def span (p : Char → Bool) (c : Cursor) : List Char × Cursor :=
  let taken := c.rest.takeWhile p
  (taken, c.skip taken.length)

/-- The place behind the next characters that satisfy a test. -/
def skipWhile (p : Char → Bool) (c : Cursor) : Cursor :=
  (c.span p).2

/-- The place behind spaces. -/
def skipSpaces (c : Cursor) : Cursor :=
  c.skipWhile (· = ' ')

/-- The place behind a comment, if one starts here. -/
def skipComment (c : Cursor) : Cursor :=
  if c.peek = some '#' then c.skipWhile (fun ch => !isBreak ch) else c

/-- The line break at a place, and the place behind it. -/
def lineBreak? (c : Cursor) : Option (Char × Cursor) :=
  match c.peek with
  | some ch =>
    if ch = '\n' || ch = '\x85' then some ('\n', c.next)
    else if isBreak ch then some (ch, c.next)
    else none
  | none => none

/-- Three dashes stand here, with nothing attached to them. -/
def atDashes (c : Cursor) : Bool :=
  c.rest.take 3 = ['-', '-', '-'] && isGap (c.peekAt 3)

/-- Three dots stand here, with nothing attached to them. -/
def atDots (c : Cursor) : Bool :=
  c.rest.take 3 = ['.', '.', '.'] && isGap (c.peekAt 3)

/-- A line that separates documents starts here. -/
def atSeparator (c : Cursor) : Bool :=
  c.atDashes || c.atDots

/-- A step takes away one character. -/
@[simp] theorem rest_next (c : Cursor) : c.next.rest = c.rest.tail := by
  unfold next
  split
  · simp_all
  · rename_i h
    rw [h]
    split
    · rfl
    · split <;> rfl

/-- Skipping takes away that many characters. -/
@[simp] theorem rest_skip (n : Nat) (c : Cursor) : (c.skip n).rest = c.rest.drop n := by
  induction n generalizing c with
  | zero => rfl
  | succ n ih => rw [skip, ih, rest_next, List.drop_tail]

end Cursor

end Yaml

end ApiMock
