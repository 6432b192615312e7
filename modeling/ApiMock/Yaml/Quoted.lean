import ApiMock.Failure
import ApiMock.Text.Digit
import ApiMock.Text.Point
import ApiMock.Yaml.Cursor
/-!
# Yaml — quoted scalars

Scalars between quotes. A line break inside is read as a space, and as
the further breaks if blank lines follow it; blanks around it do not
count. Between single quotes the quote is written twice; between double
quotes a backslash starts an escape.
-/

namespace ApiMock

namespace Yaml

namespace Quoted

open Text (hexValue? ofPoint)

/-- The line breaks from a place on, without the blanks around them. A
line that separates documents may not come up. -/
def breaks : List Char → Cursor → Except Failure (List Char × Cursor)
  | [], _ => .error .notYaml
  | _ :: fuel, c =>
    if c.atSeparator then .error .notYaml
    else
      let c := c.skipWhile isWhite
      match c.lineBreak? with
      | some (ch, c) => do
        let (more, c) ← breaks fuel c
        return (ch :: more, c)
      | none => .ok ([], c)

/-- What a first line break and the ones after it are read as. -/
def folded (first : Char) (more : List Char) : List Char :=
  if first ≠ '\n' then first :: more
  else if more.isEmpty then [' ']
  else more

/-- The blanks and line breaks from a place on, as they are read. -/
def blanks (c : Cursor) : Except Failure (List Char × Cursor) :=
  let (white, c) := c.span isWhite
  match c.lineBreak? with
  | some (ch, c) => do
    let (more, c) ← breaks c.bound c
    return (folded ch more, c)
  | none => .ok (white, c)

/-- The character that a letter behind a backslash stands for. -/
def letterValue? : Char → Option Char
  | '0' => some '\x00'
  | 'a' => some '\x07'
  | 'b' => some '\x08'
  | 't' => some '\t'
  | '\t' => some '\t'
  | 'n' => some '\n'
  | 'v' => some '\x0b'
  | 'f' => some '\x0c'
  | 'r' => some '\r'
  | 'e' => some '\x1b'
  | ' ' => some ' '
  | '"' => some '"'
  | '\\' => some '\\'
  | '/' => some '/'
  | 'N' => some '\x85'
  | '_' => some '\xa0'
  | 'L' => some '\u2028'
  | 'P' => some '\u2029'
  | _ => none

/-- The number of hexadecimal digits that a letter announces. -/
def codeLength? : Char → Option Nat
  | 'x' => some 2
  | 'u' => some 4
  | 'U' => some 8
  | _ => none

/-- The number that hexadecimal digits write. -/
def code? (digits : List Char) : Option Nat :=
  digits.foldlM (fun n c => (hexValue? c).map (16 * n + ·)) 0

/-- What a code stands for. Halves of a character stay apart, whatever
they stand next to. -/
def ofCode (n : Nat) : Except Failure (List Char) :=
  if 0x80000000 ≤ n then .error .overflow
  else if 0x110000 ≤ n then .error (.badValue "chr() arg not in range(0x110000)")
  else .ok (ofPoint n)

/-- What an escape stands for, from the place behind the backslash. -/
def escape (c : Cursor) : Except Failure (List Char × Cursor) :=
  match c.peek with
  | none => .error .notYaml
  | some letter =>
    match letterValue? letter, codeLength? letter, c.lineBreak? with
    | some ch, _, _ => .ok ([ch], c.next)
    | none, some width, _ =>
      let digits := c.next.rest.take width
      match code? digits with
      | some n =>
        if digits.length < width then .error .notYaml
        else do return (← ofCode n, c.next.skip width)
      | none => .error .notYaml
    | none, none, some (_, c) => breaks c.bound c
    | none, none, none => .error .notYaml

/-- One step inside quotes: what is read, or the end. -/
def step (isDouble : Bool) (c : Cursor) : Except Failure (Option (List Char) × Cursor) :=
  match c.peek with
  | none => .error .notYaml
  | some ch =>
    if ch = '\'' && !isDouble then
      if c.peekAt 1 = some '\'' then .ok (some ['\''], c.skip 2) else .ok (none, c.next)
    else if ch = '"' && isDouble then .ok (none, c.next)
    else if ch = '\\' && isDouble then do
      let (cs, c) ← escape c.next
      return (some cs, c)
    else if isWhite ch || isBreak ch then do
      let (cs, c) ← blanks c
      return (some cs, c)
    else .ok (some [ch], c.next)

/-- The text up to the closing quote. -/
def body (isDouble : Bool) : List Char → Cursor → Except Failure (List Char × Cursor)
  | [], _ => .error .notYaml
  | _ :: fuel, c => do
    match ← step isDouble c with
    | (none, c) => return ([], c)
    | (some cs, c) =>
      let (more, c) ← body isDouble fuel c
      return (cs ++ more, c)

/-- Reads a scalar from its opening quote on. -/
def read (isDouble : Bool) (c : Cursor) : Except Failure (String × Cursor) := do
  let (cs, c) ← body isDouble c.bound c.next
  return (String.ofList cs, c)

end Quoted

end Yaml

end ApiMock
