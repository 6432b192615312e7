import ApiMock.Text.Digit
import ApiMock.Text.Utf8
import ApiMock.Yaml.Cursor
import ApiMock.Yaml.Token
/-!
# Yaml — names, tags and directives

The tokens that say something about what follows them: anchors and
aliases by name, tags with or without a handle, and the directives in
front of a document.
-/

namespace ApiMock

namespace Yaml

namespace Property

open Text (hexValue?)

/-- A character of a name. -/
def isNameChar (c : Char) : Bool :=
  c.isAlphanum || c = '-' || c = '_'

/-- A character of a tag. -/
def isTagChar (c : Char) : Bool :=
  c.isAlphanum || "-;/?:@&=+$,_.!~*'()[]%".toList.contains c

/-- The place behind a name, and the name. -/
def name (c : Cursor) : Except Failure (String × Cursor) :=
  let (cs, c) := c.span isNameChar
  if cs.isEmpty then .error .notYaml else .ok (String.ofList cs, c)

/-- The name of an anchor or an alias, from its mark on. -/
def anchorName (c : Cursor) : Except Failure (String × Cursor) := do
  let (n, c) ← name c.next
  if isGap c.peek || c.peek.any "?:,]\x7d%@`".toList.contains then return (n, c)
  else throw .notYaml

/-! ## Tags -/

/-- The bytes that a row of escapes writes, and the text behind them. -/
def escapedBytes : List Char → Option (List UInt8 × List Char)
  | '%' :: a :: b :: rest => do
    let high ← hexValue? a
    let low ← hexValue? b
    let (more, rest) ← escapedBytes rest
    return (UInt8.ofNat (high * 16 + low) :: more, rest)
  | '%' :: _ => none
  | rest => some ([], rest)

/-- The text that bytes encode. -/
def decoded? (bytes : List UInt8) : Option (List Char) :=
  Text.Utf8.decode? bytes

/-- The characters of a tag with its escapes decoded. -/
def tagText : List Char → Cursor → Except Failure (List Char × Cursor)
  | [], _ => .error .notYaml
  | _ :: fuel, c =>
    let (cs, c) := c.span fun ch => isTagChar ch && ch ≠ '%'
    if c.peek = some '%' then
      match escapedBytes c.rest with
      | some (bytes, _) =>
        match decoded? bytes with
        | some text => do
          let (more, c) ← tagText fuel (c.skip (3 * bytes.length))
          return (cs ++ text ++ more, c)
        | none => .error .notYaml
      | none => .error .notYaml
    else .ok (cs, c)

/-- A part of a tag that may not be empty. -/
def tagPart (c : Cursor) : Except Failure (String × Cursor) := do
  if c.peek.any isTagChar then
    let (cs, c) ← tagText c.bound c
    return (String.ofList cs, c)
  else throw .notYaml

/-- A handle: one exclamation mark, or two around a name that may be
empty. -/
def handle (c : Cursor) : Except Failure (String × Cursor) :=
  if c.peek ≠ some '!' then .error .notYaml
  else if c.peekAt 1 = some ' ' then .ok ("!", c.next)
  else
    let (cs, c) := c.next.span isNameChar
    if c.peek = some '!' then .ok (String.ofList ('!' :: cs ++ ['!']), c.next)
    else .error .notYaml

/-- A second exclamation mark stands in the word that starts here. -/
def hasHandle (c : Cursor) : Bool :=
  (c.next.rest.takeWhile fun ch => !isSpaceOrEnd (some ch)).contains '!'

/-- The handle and the rest of a tag, from its mark on. -/
def writtenTag (c : Cursor) : Except Failure (WrittenTag × Cursor) := do
  if c.peekAt 1 = some '<' then
    let (suffix, c) ← tagPart (c.skip 2)
    if c.peek = some '>' then return (⟨none, suffix⟩, c.next) else throw .notYaml
  else if isGap (c.peekAt 1) then return (⟨none, "!"⟩, c.next)
  else if hasHandle c then
    let (h, c) ← handle c
    let (suffix, c) ← tagPart c
    return (⟨some h, suffix⟩, c)
  else
    let (suffix, c) ← tagPart c.next
    return (⟨some "!", suffix⟩, c)

/-- A tag from its mark on. It must stand alone. -/
def tag (c : Cursor) : Except Failure (WrittenTag × Cursor) := do
  let (t, c) ← writtenTag c
  if isSpaceOrEnd c.peek then return (t, c) else throw .notYaml

/-! ## Directives -/

/-- A number of a version; only whether it is one matters. -/
def versionNumber (c : Cursor) : Except Failure (Nat × Cursor) :=
  let (cs, c) := c.span Char.isDigit
  if cs.isEmpty then .error .notYaml
  else .ok (cs.foldl (fun n d => 10 * n + (d.toNat - 48)) 0, c)

/-- The version that a directive states. -/
def versionDirective (c : Cursor) : Except Failure (Directive × Cursor) := do
  let (major, c) ← versionNumber c.skipSpaces
  if c.peek ≠ some '.' then throw .notYaml
  let (_, c) ← versionNumber c.next
  if isSpaceOrEnd c.peek then return (.version major, c) else throw .notYaml

/-- The handle that a directive gives a meaning. -/
def handleDirective (c : Cursor) : Except Failure (Directive × Cursor) := do
  let (h, c) ← handle c.skipSpaces
  if c.peek ≠ some ' ' then throw .notYaml
  let (expansion, c) ← tagPart c.skipSpaces
  if isSpaceOrEnd c.peek then return (.handle h expansion, c) else throw .notYaml

/-- What a directive with a name says. -/
def named (name : String) (c : Cursor) : Except Failure (Directive × Cursor) :=
  if name = "YAML" then versionDirective c
  else if name = "TAG" then handleDirective c
  else .ok (.other, c.skipWhile fun ch => !isBreak ch)

/-- A directive from its mark on, and the line it stands on. -/
def directive (c : Cursor) : Except Failure (Directive × Cursor) := do
  let (n, c) ← name c.next
  if !isSpaceOrEnd c.peek then throw .notYaml
  let (d, c) ← named n c
  let c := c.skipSpaces.skipComment
  if isLineEnd c.peek then return (d, (c.lineBreak?.map Prod.snd).getD c) else throw .notYaml

end Property

end Yaml

end ApiMock
