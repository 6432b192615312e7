import ApiMock.Text.Split
/-!
# Files — paths

A path is a root, which is empty for a path from the working directory,
and the names from there. Reading a path drops empty names and single
dots; two dots stay, since only the file system knows where they lead.
-/

namespace ApiMock

open Text (cut)

/-- A path. -/
structure FilePath where
  root : String
  names : List String
  deriving DecidableEq, Repr, Inhabited

namespace FilePath

/-- A name that leads nowhere. -/
def isIdle (name : String) : Bool :=
  name = "" || name = "."

/-- The root that a text starts with. Two slashes are a root of their own,
more of them count as one. -/
def rootOf (cs : List Char) : String :=
  match cs with
  | '/' :: '/' :: '/' :: _ => "/"
  | '/' :: '/' :: _ => "//"
  | '/' :: _ => "/"
  | _ => ""

/-- The path that a text writes. -/
def ofText (s : String) : FilePath where
  root := rootOf s.toList
  names := ((cut '/' s.toList).map String.ofList).filter fun n => !isIdle n

/-- The path as a text; a dot for the working directory. -/
def text (p : FilePath) : String :=
  let body := p.root ++ String.intercalate "/" p.names
  if body.isEmpty then "." else body

/-- The path `q` taken from `p` on. A path with a root does not care. -/
def join (p q : FilePath) : FilePath :=
  if q.root.isEmpty then ⟨p.root, p.names ++ q.names⟩ else q

/-- The path without its last name. -/
def parent (p : FilePath) : FilePath :=
  { p with names := p.names.dropLast }

/-- The root, if there is one, and the names. -/
def parts (p : FilePath) : List String :=
  if p.root.isEmpty then p.names else p.root :: p.names

/-- Order of paths, part by part. -/
def before (p q : FilePath) : Bool :=
  p.parts < q.parts

/-- What is left of a path behind another one that it starts with. -/
def within (p q : FilePath) : FilePath :=
  ⟨"", p.names.drop q.names.length⟩

end FilePath

end ApiMock
