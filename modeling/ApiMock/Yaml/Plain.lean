import ApiMock.Yaml.Cursor
/-!
# Yaml — plain scalars

Scalars without quotes. They end where something else could begin: at a
colon before a gap, at a comment, in brackets also at a bracket or a
comma. They go on over line breaks as long as the lines are indented.
-/

namespace ApiMock

namespace Yaml

namespace Plain

/-- A character with a meaning of its own in brackets. -/
def isFlowMark (c : Char) : Bool :=
  c = ',' || c = '[' || c = ']' || c = '\x7b' || c = '\x7d'

/-- A plain scalar ends before `ch`, which `after` follows. -/
def endsAt (inFlow : Bool) (ch : Char) (after : Option Char) : Bool :=
  isGap (some ch) || (ch = ':' && (isGap after || (inFlow && after.any isFlowMark))) ||
    (inFlow && (ch = '?' || isFlowMark ch))

/-- The longest piece of a plain scalar that a text starts with. -/
def piece (inFlow : Bool) : List Char → List Char
  | [] => []
  | ch :: rest => if endsAt inFlow ch rest.head? then [] else ch :: piece inFlow rest

/-- The line breaks from a place on, without the spaces between them;
nothing if a line that separates documents comes up. -/
def breaks : List Char → Cursor → Option (List Char) × Cursor
  | [], c => (none, c)
  | _ :: fuel, c =>
    let c := c.skipSpaces
    match c.lineBreak? with
    | some (ch, c) =>
      if c.atSeparator then (none, c)
      else
        let (more, c) := breaks fuel c
        (more.map (ch :: ·), c)
    | none => (some [], c)

/-- What spaces and line breaks between two pieces are read as, whether
there was a line break, and the place behind them. They are read as
nothing if the scalar ends before them. -/
def between (c : Cursor) : List Char × Bool × Cursor :=
  let (spaces, c) := c.span (· = ' ')
  match c.lineBreak? with
  | none => (spaces, false, c)
  | some (first, c) =>
    if c.atSeparator then ([], true, c)
    else
      match breaks c.bound c with
      | (none, c) => ([], true, c)
      | (some more, c) =>
        (if first ≠ '\n' then first :: more else if more.isEmpty then [' '] else more, true, c)

/-- A plain scalar: its text, whether a line break was read behind its
last piece, and the place behind it. -/
structure Reading where
  text : List Char
  brokeLine : Bool
  cursor : Cursor

/-- Reads the pieces of a plain scalar. `spaces` is what stands between
the last piece and this place. -/
def pieces (inFlow : Bool) (indent : Nat) : List Char → List Char → Bool → Cursor → Reading
  | [], _, brokeLine, c => ⟨[], brokeLine, c⟩
  | _ :: fuel, spaces, brokeLine, c =>
    let found := if c.peek = some '#' then [] else piece inFlow c.rest
    if found.isEmpty then ⟨[], brokeLine, c⟩
    else
      let (more, brokeLine, c) := between (c.skip found.length)
      let tail : Reading :=
        if more.isEmpty || c.peek = some '#' || (!inFlow && c.column < indent) then ⟨[], brokeLine, c⟩
        else pieces inFlow indent fuel more brokeLine c
      { tail with text := spaces ++ found ++ tail.text }

/-- Reads a plain scalar whose lines must be indented by `indent`. -/
def read (inFlow : Bool) (indent : Nat) (c : Cursor) : Reading :=
  pieces inFlow indent c.bound [] false c

end Plain

end Yaml

end ApiMock
