import ApiMock.Data.Basic
import ApiMock.Text.Split
/-!
# OpenApi — pointers

A pointer is a path of keys into a document. Hashes and slashes at its
front are not part of it; the keys follow, cut at slashes, with `~1` for
a slash in a key and `~0` for a tilde. Following a pointer looks its keys
up one after the other, and leads to null where a key is missing.

An object with a `$ref` stands for what the pointer there leads to.
`deref` follows such chains; a chain of more than sixteen steps is left
where it is by then.
-/

namespace ApiMock

namespace Pointer

open Text (cut replacePair)

/-- A key as it is meant: `~1` is a slash, and then `~0` a tilde. -/
def unescape (key : List Char) : List Char :=
  replacePair '~' '0' ['~'] (replacePair '~' '1' ['/'] key)

/-- The keys of a pointer. -/
def keys (pointer : String) : List String :=
  (cut '/' (pointer.toList.dropWhile fun c => c = '#' || c = '/')).map fun key =>
    String.ofList (unescape key)

/-- Looks keys up one after the other. -/
def walk (d : Data) : List String → Data
  | [] => d
  | key :: rest =>
    match d.field? key with
    | some next => walk next rest
    | none => .null

/-- What a pointer leads to in a document. -/
def follow (document : Data) (pointer : String) : Data :=
  walk document (keys pointer)

/-- What a value that is used as a pointer leads to. -/
def followValue (document pointer : Data) : Except Failure Data := do
  return follow document (← pointer.text)

/-- Follows references for at most so many steps. -/
def derefWithin (document : Data) : Nat → Data → Except Failure Data
  | 0, d => .ok d
  | steps + 1, d =>
    match d.field? "$ref" with
    | none => .ok d
    | some pointer => do derefWithin document steps (← followValue document pointer)

/-- What an object stands for that may be a reference. -/
def deref (document d : Data) : Except Failure Data :=
  derefWithin document 16 d

end Pointer

end ApiMock
