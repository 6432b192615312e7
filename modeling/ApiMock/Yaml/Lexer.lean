import ApiMock.Yaml.Block
import ApiMock.Yaml.Plain
import ApiMock.Yaml.Property
import ApiMock.Yaml.Quoted
import ApiMock.Yaml.Token
/-!
# Yaml — cutting a text into tokens

The state of the cut is a place in the text, the tokens so far, the
columns of the open block collections, and for every level of brackets
the token that may turn out to be a key. A key is known only once its
colon is read: the mark of a key, and in block style the start of a
mapping, are then put in front of it. A key without a mark has to fit on
a line and in 1024 characters.
-/

namespace ApiMock

namespace Yaml

/-- A token that may turn out to be a key. It must if it is `required`. -/
structure PossibleKey where
  number : Nat
  required : Bool
  index : Nat
  line : Nat
  column : Nat
  deriving Repr

/-- The state of a cut. Tokens stand in reverse order. `here` is the
possible key of the innermost brackets, `outer` those of the brackets
around them. -/
structure Lexer where
  cursor : Cursor
  tokens : List Token
  count : Nat
  indents : List Nat
  keyAllowed : Bool
  here : Option PossibleKey
  outer : List (Option PossibleKey)

namespace Lexer

/-- The state at the start of a text. -/
def start (text : List Char) : Lexer where
  cursor := .start text
  tokens := []
  count := 0
  indents := []
  keyAllowed := true
  here := none
  outer := []

/-- Inside brackets. -/
def inFlow (l : Lexer) : Bool :=
  !l.outer.isEmpty

/-- The column from which the lines of the innermost block are indented. -/
def leastIndent (l : Lexer) : Nat :=
  match l.indents with
  | [] => 0
  | i :: _ => i + 1

/-- Adds a token. -/
def emit (t : Token) (l : Lexer) : Lexer :=
  { l with tokens := t :: l.tokens, count := l.count + 1 }

/-- Puts a token in front of the one with a number. -/
def emitBefore (number : Nat) (t : Token) (l : Lexer) : Lexer :=
  let later := l.count - number
  { l with
    tokens := l.tokens.take later ++ t :: l.tokens.drop later
    count := l.count + 1 }

/-- Goes to another place. -/
def moveTo (c : Cursor) (l : Lexer) : Lexer :=
  { l with cursor := c }

/-! ## Possible keys -/

/-- A possible key that can no longer become one. -/
def isStale (c : Cursor) (k : PossibleKey) : Bool :=
  k.line ≠ c.line || 1024 < c.index - k.index

/-- Forgets a possible key if it is stale. -/
def fresh? (c : Cursor) (key : Option PossibleKey) : Option PossibleKey :=
  key.filter fun k => !isStale c k

/-- Forgets stale keys; a required one may not become stale. -/
def dropStale (l : Lexer) : Except Failure Lexer :=
  if (l.here :: l.outer).any fun key => key.any fun k => isStale l.cursor k && k.required then
    .error .notYaml
  else
    .ok { l with
      here := fresh? l.cursor l.here
      outer := l.outer.map (fresh? l.cursor) }

/-- Gives up the possible key of the innermost brackets. -/
def dropKey (l : Lexer) : Except Failure Lexer :=
  if l.here.any (·.required) then .error .notYaml
  else .ok { l with here := none }

/-- Notes that the next token may be a key. -/
def noteKey (l : Lexer) : Except Failure Lexer :=
  if l.keyAllowed then do
    let l ← l.dropKey
    let required := !l.inFlow && l.indents.head? = some l.cursor.column
    return { l with
      here := some ⟨l.count, required, l.cursor.index, l.cursor.line, l.cursor.column⟩ }
  else .ok l

/-! ## Indentation -/

/-- Closes the blocks that are indented further than a column. -/
def closeBlocks (column : Nat) (l : Lexer) : Lexer :=
  let closed := l.indents.takeWhile (column < ·)
  closed.foldl (fun l _ => l.emit .blockEnd)
    { l with indents := l.indents.drop closed.length }

/-- Closes all blocks. -/
def closeAllBlocks (l : Lexer) : Lexer :=
  l.indents.foldl (fun l _ => l.emit .blockEnd) { l with indents := [] }

/-- A block may be opened at a column: it is indented further than the
one around it. -/
def opensAt (column : Nat) (l : Lexer) : Bool :=
  match l.indents with
  | [] => true
  | i :: _ => i < column

/-- Opens a block at a column, if it is indented further. -/
def openBlock (t : Token) (l : Lexer) : Lexer :=
  let column := l.cursor.column
  if l.opensAt column then { l.emit t with indents := column :: l.indents } else l

/-! ## Tokens by their marks -/

/-- The place of the next token, behind blanks and comments. A line break
outside brackets makes room for a key. -/
def toNextToken : List Char → Lexer → Lexer
  | [], l => l
  | _ :: fuel, l =>
    let c := l.cursor.skipSpaces.skipComment
    match c.lineBreak? with
    | some (_, c) =>
      toNextToken fuel { l with cursor := c, keyAllowed := l.keyAllowed || !l.inFlow }
    | none => l.moveTo c

/-- The end of the text. -/
def endText (l : Lexer) : Except Failure Lexer := do
  let l ← (if l.inFlow then l else l.closeAllBlocks).dropKey
  return l.emit .textEnd

/-- A directive or a mark between documents. -/
def documentToken (l : Lexer) (t : Token) (c : Cursor) : Except Failure Lexer := do
  let l ← (if l.inFlow then l else l.closeAllBlocks).dropKey
  return ({ l with keyAllowed := false }.moveTo c).emit t

/-- An opening bracket. -/
def openFlow (l : Lexer) (t : Token) : Except Failure Lexer := do
  let l ← l.noteKey
  let inside := { l with keyAllowed := true, here := none, outer := l.here :: l.outer }
  return (inside.moveTo l.cursor.next).emit t

/-- A closing bracket. -/
def closeFlow (l : Lexer) (t : Token) : Except Failure Lexer := do
  let l ← l.dropKey
  match l.outer with
  | [] => throw .notYaml
  | key :: outer =>
    return ({ l with keyAllowed := false, here := key, outer := outer }.moveTo l.cursor.next).emit t

/-- A comma in brackets. -/
def flowEntry (l : Lexer) : Except Failure Lexer := do
  let l ← l.dropKey
  return ({ l with keyAllowed := true }.moveTo l.cursor.next).emit .flowEntry

/-- A mark that may open a block: it may stand only where a key may. -/
def blockMark (l : Lexer) (block : Token) : Except Failure Lexer :=
  if l.inFlow then .ok l
  else if l.keyAllowed then .ok (l.openBlock block)
  else .error .notYaml

/-- The dash of an entry. -/
def blockEntry (l : Lexer) : Except Failure Lexer := do
  let l ← (← l.blockMark .blockSequenceStart).dropKey
  return ({ l with keyAllowed := true }.moveTo l.cursor.next).emit .blockEntry

/-- The question mark of a key. -/
def keyMark (l : Lexer) : Except Failure Lexer := do
  let l ← (← l.blockMark .blockMappingStart).dropKey
  return ({ l with keyAllowed := !l.inFlow }.moveTo l.cursor.next).emit .key

/-- The colon of a value. If there is a possible key, it is one. -/
def valueMark (l : Lexer) : Except Failure Lexer := do
  match l.here with
  | some k =>
    let l := { l with here := none, keyAllowed := false }.emitBefore k.number .key
    let l :=
      if !l.inFlow && l.opensAt k.column then
        { l.emitBefore k.number .blockMappingStart with indents := k.column :: l.indents }
      else l
    return (l.moveTo l.cursor.next).emit .value
  | none =>
    let l ← l.blockMark .blockMappingStart
    return ({ l with keyAllowed := !l.inFlow }.moveTo l.cursor.next).emit .value

/-- A token that may be a key, with the place behind it. -/
def content (l : Lexer) (read : Cursor → Except Failure (Token × Cursor)) :
    Except Failure Lexer := do
  let l ← l.noteKey
  let (t, c) ← read l.cursor
  return ({ l with keyAllowed := false }.moveTo c).emit t

/-- A plain scalar. A key may follow it if it ended with its line. -/
def plainScalar (l : Lexer) : Except Failure Lexer := do
  let l ← l.noteKey
  let r := Plain.read l.inFlow l.leastIndent l.cursor
  return ({ l with keyAllowed := r.brokeLine }.moveTo r.cursor).emit
    (.scalar (String.ofList r.text) true)

/-- A block scalar. -/
def blockScalar (l : Lexer) (isFolded : Bool) : Except Failure Lexer := do
  let l ← l.dropKey
  let (text, c) ← Block.read isFolded l.leastIndent l.cursor
  return ({ l with keyAllowed := true }.moveTo c).emit (.scalar text false)

/-- Characters that a plain scalar does not start with, unless it says so. -/
def isIndicator (c : Char) : Bool :=
  "-?:,[]\x7b\x7d#&*!|>'\"%@`".toList.contains c

/-- A plain scalar starts here. -/
def startsPlain (l : Lexer) (ch : Char) : Bool :=
  (!isGap (some ch) && !isIndicator ch) ||
    (!isGap (l.cursor.peekAt 1) && (ch = '-' || (!l.inFlow && (ch = '?' || ch = ':'))))

/-- The mark of a key or a value: in block style a gap must follow. -/
def isMark (l : Lexer) : Bool :=
  l.inFlow || isGap (l.cursor.peekAt 1)

/-- Adds the token that starts with `ch` at the place of the state. -/
def tokenFrom (l : Lexer) (ch : Char) : Except Failure Lexer :=
  let c := l.cursor
  if ch = '%' && c.column = 0 then do
    let (d, c) ← Property.directive c
    l.documentToken (.directive d) c
  else if c.column = 0 && c.atDashes then l.documentToken .documentStart (c.skip 3)
  else if c.column = 0 && c.atDots then l.documentToken .documentEnd (c.skip 3)
  else if ch = '[' then l.openFlow .flowSequenceStart
  else if ch = '\x7b' then l.openFlow .flowMappingStart
  else if ch = ']' then l.closeFlow .flowSequenceEnd
  else if ch = '\x7d' then l.closeFlow .flowMappingEnd
  else if ch = ',' then l.flowEntry
  else if ch = '-' && isGap (c.peekAt 1) then l.blockEntry
  else if ch = '?' && l.isMark then l.keyMark
  else if ch = ':' && l.isMark then l.valueMark
  else if ch = '*' then l.content fun c => do
    let (n, c) ← Property.anchorName c
    return (.alias n, c)
  else if ch = '&' then l.content fun c => do
    let (n, c) ← Property.anchorName c
    return (.anchor n, c)
  else if ch = '!' then l.content fun c => do
    let (t, c) ← Property.tag c
    return (.tag t, c)
  else if ch = '|' && !l.inFlow then l.blockScalar false
  else if ch = '>' && !l.inFlow then l.blockScalar true
  else if ch = '\'' || ch = '"' then l.content fun c => do
    let (text, c) ← Quoted.read (ch = '"') c
    return (.scalar text false, c)
  else if l.startsPlain ch then l.plainScalar
  else .error .notYaml

/-- Adds the next token and the ends of blocks in front of it. -/
def step (l : Lexer) : Except Failure Lexer := do
  let l ← (toNextToken l.cursor.bound l).dropStale
  let l := if l.inFlow then l else l.closeBlocks l.cursor.column
  match l.cursor.peek with
  | none => l.endText
  | some ch => l.tokenFrom ch

/-- The tokens before a failure. A token that may still be a key is not
known before it is known whether it is one. -/
def upToFailure (l : Lexer) (f : Failure) : List Token :=
  let pending := ((l.here :: l.outer).filterMap (fresh? l.cursor)).map (·.number)
  l.tokens.reverse.take (pending.foldl min l.count) ++ [.broken f]

/-- Adds tokens up to the end of the text. -/
def run : List Char → Lexer → List Token
  | [], l => l.tokens.reverse
  | _ :: fuel, l =>
    match l.step with
    | .error f => l.upToFailure f
    | .ok next =>
      match next.tokens with
      | .textEnd :: _ => next.tokens.reverse
      | _ => run fuel next

end Lexer

/-- The tokens of a text. -/
def tokens (text : List Char) : List Token :=
  let l := Lexer.start text
  l.run ('\n' :: l.cursor.bound)

end Yaml

end ApiMock
