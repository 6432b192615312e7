import ApiMock.Entries
import ApiMock.Failure
import ApiMock.Files.Path
import ApiMock.Text.Point
import ApiMock.Text.Utf8
/-!
# Files — the tree of files

The files and directories that the program can see, each at its place. A
path is walked name by name: what it goes through must be a directory,
and two dots lead to the directory above. What lies above the working
directory is not known but for being a directory.
-/

namespace ApiMock

/-- A place in the tree: the names that lead to it, without idle names,
and with two dots only in front. -/
abbrev Location := List String

/-- What stands at a place. -/
inductive FileEntry where
  | file (bytes : List UInt8)
  | directory
  deriving DecidableEq, Repr

/-- Files and directories by place. -/
structure FileTree where
  entries : List (Location × FileEntry)
  deriving Repr

namespace FileTree

/-- No file at all. -/
def empty : FileTree := ⟨[]⟩

/-- A place that is always a directory: the working directory, a root, or
a directory above. -/
def isFixed (here : Location) : Bool :=
  here.all (· = "..") || here = ["/"] || here = ["//"]

/-- What stands at a place, if anything does. -/
def entry? (t : FileTree) (here : Location) : Option FileEntry :=
  if isFixed here then some .directory else t.entries.lookup here

/-- The place above. -/
def above (here : Location) : Location :=
  if here.all (· = "..") then here ++ [".."]
  else if isFixed here then here
  else here.dropLast

/-- The most bytes that a name may have. -/
def longestName : Nat := 255

/-- The number of bytes of a text. -/
def byteCount (s : String) : Nat :=
  (Text.Utf8.encode s.toList).length

/-- The place that names lead to. Everything on the way must be a
directory; at the end anything may stand, also nothing. -/
def walk (t : FileTree) : Location → List String → Except FileFault Location
  | here, [] => .ok here
  | here, name :: rest =>
    match t.entry? here with
    | none => .error .missing
    | some (.file _) => .error .notDirectory
    | some .directory =>
      if FilePath.isIdle name then walk t here rest
      else if name = ".." then walk t (above here) rest
      else if longestName < byteCount name then .error .nameTooLong
      else walk t (here ++ [name]) rest

/-- The most bytes that a path may have. -/
def longestPath : Nat := 4095

/-- A text that can be asked for as a path at all. -/
def checkText (text : String) : Except Failure Unit :=
  if text.toList.contains '\x00' then .error (.badValue "embedded null byte")
  else if longestPath < byteCount text then .error (.file .nameTooLong)
  else .ok ()

/-- The place where a path starts. -/
def startOf (root : String) : Location :=
  if root.isEmpty then [] else [root]

/-- The place that a path leads to. -/
def locate (t : FileTree) (p : FilePath) : Except Failure Location := do
  checkText p.text
  (t.walk (startOf p.root) p.names).mapError .file

/-- What stands where a path leads to. -/
def find (t : FileTree) (p : FilePath) : Except Failure FileEntry := do
  match t.entry? (← t.locate p) with
  | some e => return e
  | none => throw (.file .missing)

/-- The bytes of a file. -/
def read (t : FileTree) (p : FilePath) : Except Failure (List UInt8) := do
  match ← t.find p with
  | .file bytes => return bytes
  | .directory => throw (.file .isDirectory)

/-- The text of a file, with line feeds for all line ends. -/
def readText (t : FileTree) (p : FilePath) : Except Failure String := do
  match Text.Utf8.decode? (← t.read p) with
  | some cs => return String.ofList (Text.ofChars (Text.withLineFeeds cs))
  | none => throw .encoding

/-- Whether something stands where a path leads to. A path that is too
long cannot be told. -/
def contains (t : FileTree) (p : FilePath) : Except Failure Bool :=
  match t.find p with
  | .ok _ => .ok true
  | .error (.file .nameTooLong) => .error (.file .nameTooLong)
  | .error _ => .ok false

/-! ## Changes -/

/-- Puts an entry at a place, in the stead of what stands there. -/
def put (t : FileTree) (here : Location) (e : FileEntry) : FileTree :=
  ⟨Entries.put here e t.entries⟩

/-- Makes a directory where nothing stands. -/
def makeDirectory (t : FileTree) (p : FilePath) : Except Failure FileTree := do
  let here ← t.locate p
  match t.entry? here with
  | some _ => throw (.file .alreadyExists)
  | none => return t.put here .directory

/-- A path leads to a directory. -/
def isDirectory (t : FileTree) (p : FilePath) : Bool :=
  match t.find p with
  | .ok .directory => true
  | _ => false

/-- Lets a directory stand that could not be made because it is there. -/
def orStanding (t : FileTree) (p : FilePath) (r : Except Failure FileTree) : Except Failure FileTree :=
  match r with
  | .error (.file f) => if t.isDirectory p then .ok t else .error (.file f)
  | r => r

/-- Makes a directory and the ones above it, as far as they are missing.
`count` names of the path are taken. The second part is what fails; the
first part stands in any case. -/
def makeDirectoriesUpTo (t : FileTree) (p : FilePath) : Nat → FileTree × Except Failure Unit
  | 0 => finish t (orStanding t ⟨p.root, []⟩ (t.makeDirectory ⟨p.root, []⟩))
  | count + 1 =>
    let q : FilePath := ⟨p.root, p.names.take (count + 1)⟩
    match t.makeDirectory q with
    | .error (.file .missing) =>
      match makeDirectoriesUpTo t p count with
      | (t, .error f) => (t, .error f)
      | (t, .ok ()) => finish t (orStanding t q (t.makeDirectory q))
    | r => finish t (orStanding t q r)
where
  /-- The tree after a change that may have failed. -/
  finish (t : FileTree) (r : Except Failure FileTree) : FileTree × Except Failure Unit :=
    match r with
    | .ok t => (t, .ok ())
    | .error f => (t, .error f)

/-- Makes a directory and the ones above it, as far as they are missing. -/
def makeDirectories (t : FileTree) (p : FilePath) : FileTree × Except Failure Unit :=
  t.makeDirectoriesUpTo p p.names.length

/-- Writes a file, in the stead of one that is there. -/
def write (t : FileTree) (p : FilePath) (bytes : List UInt8) : Except Failure FileTree := do
  let here ← t.locate p
  match t.entry? here with
  | some .directory => throw (.file .isDirectory)
  | _ => return t.put here (.file bytes)

/-! ## Listing -/

/-- The files of the tree by place. -/
def files (t : FileTree) : List (Location × List UInt8) :=
  t.entries.filterMap fun e =>
    match e.2 with
    | .file bytes => some (e.1, bytes)
    | .directory => none

end FileTree

end ApiMock
