import ApiMock.Failure
import ApiMock.Text.Digit
import ApiMock.Yaml.Cursor
/-!
# Yaml — block scalars

Scalars that are written as indented lines. A bar keeps the line breaks; a
greater-than sign folds a single break between two lines that start with
no blank into a space. A sign behind the mark says whether the breaks at
the end are kept or dropped, a digit how far the lines are indented.
-/

namespace ApiMock

namespace Yaml

namespace Block

/-- What becomes of the line breaks at the end. -/
inductive Chomping where
  | clip
  | strip
  | keep
  deriving DecidableEq, Repr

/-- What the mark of a block scalar says. -/
structure Header where
  chomping : Chomping
  indentation : Option Nat
  deriving Repr

/-- A sign of the header, if one stands here. -/
def chomping? (c : Cursor) : Option (Chomping × Cursor) :=
  if c.peek = some '+' then some (.keep, c.next)
  else if c.peek = some '-' then some (.strip, c.next)
  else none

/-- A digit of the header, if one stands here. Zero is refused. -/
def indentation (c : Cursor) : Except Failure (Option Nat × Cursor) :=
  match c.peek with
  | some ch =>
    if ch = '0' then .error .notYaml
    else if ch.isDigit then .ok (some (ch.toNat - 48), c.next)
    else .ok (none, c)
  | none => .ok (none, c)

/-- Reads sign and digit in either order. -/
def header (c : Cursor) : Except Failure (Header × Cursor) := do
  match chomping? c with
  | some (chomping, c) =>
    let (digit, c) ← indentation c
    return (⟨chomping, digit⟩, c)
  | none =>
    match ← indentation c with
    | (none, c) => return (⟨.clip, none⟩, c)
    | (digit, c) =>
      match chomping? c with
      | some (chomping, c) => return (⟨chomping, digit⟩, c)
      | none => return (⟨.clip, digit⟩, c)

/-- The place behind the rest of a line that may hold only a comment. -/
def restOfLine (c : Cursor) : Except Failure Cursor :=
  let c := c.skipSpaces.skipComment
  if isLineEnd c.peek then .ok ((c.lineBreak?.map Prod.snd).getD c)
  else .error .notYaml

/-- The leading blank lines, and the widest indentation met up to the
first line that is not blank. -/
def leading : List Char → Nat → Cursor → List Char × Nat × Cursor
  | [], widest, c => ([], widest, c)
  | _ :: fuel, widest, c =>
    let c := c.skipSpaces
    let widest := max widest c.column
    match c.lineBreak? with
    | some (ch, c) =>
      let (more, widest, c) := leading fuel widest c
      (ch :: more, widest, c)
    | none => ([], widest, c)

/-- The place behind spaces, but not beyond a column. -/
def skipSpacesTo (column : Nat) (c : Cursor) : Cursor :=
  c.skip (min (column - c.column) (c.rest.takeWhile (· = ' ')).length)

/-- The blank lines from a place on, and the place behind the indentation
of the line that follows. -/
def breaks (indent : Nat) : List Char → Cursor → List Char × Cursor
  | [], c => ([], c)
  | _ :: fuel, c =>
    let c := skipSpacesTo indent c
    match c.lineBreak? with
    | some (ch, c) =>
      let (more, c) := breaks indent fuel c
      (ch :: more, c)
    | none => ([], c)

/-- What stands between two lines: the break at the end of the first, as
it is read, and the blank lines. -/
def joint (isFolded startsFull : Bool) (lineEnd : List Char) (blank : List Char) (c : Cursor) :
    List Char :=
  if isFolded && lineEnd = ['\n'] && startsFull && !c.peek.any isWhite then
    if blank.isEmpty then [' '] else blank
  else lineEnd ++ blank

/-- The lines from a place on that are indented: their text, and at the
end the last break and the blank lines behind it. -/
def lines (isFolded : Bool) (indent : Nat) :
    List Char → Cursor → List Char × List Char × List Char × Cursor
  | [], c => ([], [], [], c)
  | _ :: fuel, c =>
    let startsFull := !c.peek.any isWhite
    let (line, c) := c.span fun ch => !isBreak ch
    let (lineEnd, c) := match c.lineBreak? with
      | some (ch, c) => ([ch], c)
      | none => ([], c)
    let (blank, c) := breaks indent c.bound c
    if c.column = indent && c.peek.isSome then
      let (text, rest) := lines isFolded indent fuel c
      (line ++ joint isFolded startsFull lineEnd blank c ++ text, rest)
    else (line, lineEnd, blank, c)

/-- The text of a block scalar from its parts. -/
def chomped (chomping : Chomping) (text lineEnd blank : List Char) : List Char :=
  match chomping with
  | .strip => text
  | .clip => text ++ lineEnd
  | .keep => text ++ lineEnd ++ blank

/-- Reads a scalar from its mark on, inside a collection that is indented
so that its own lines must be indented by `least`. -/
def read (isFolded : Bool) (least : Nat) (c : Cursor) : Except Failure (String × Cursor) := do
  let (h, c) ← header c.next
  if !isSpaceOrEnd c.peek then throw .notYaml
  let c ← restOfLine c
  let fuel := c.bound
  let least := max least 1
  let (first, indent, c) := match h.indentation with
    | some n =>
      let (blank, c) := breaks (least + n - 1) fuel c
      (blank, least + n - 1, c)
    | none =>
      let (blank, widest, c) := leading fuel 0 c
      (blank, max least widest, c)
  if c.column = indent && c.peek.isSome then
    let (text, lineEnd, blank, c) := lines isFolded indent fuel c
    return (String.ofList (chomped h.chomping (first ++ text) lineEnd blank), c)
  else return (String.ofList (chomped h.chomping [] [] first), c)

end Block

end Yaml

end ApiMock
