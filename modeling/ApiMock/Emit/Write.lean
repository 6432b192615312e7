import ApiMock.Blueprint.Build
import ApiMock.Emit.Files
import ApiMock.Files.Tree
/-!
# Emit — writing the files

Files are written in order below an output directory; directories are
made where they are missing. When a file fails, those before it stand
and those behind it are not begun. Rendering comes first: unless every
file could be rendered, none is written.
-/

namespace ApiMock

/-- What a run can change: the files, and the messages reported. -/
structure Workspace where
  files : FileTree
  log : List LogEntry

/-- A computation that may change files. Changes and messages stay when
it fails. -/
abbrev Filing (α : Type) := ExceptT Failure (StateM Workspace) α

namespace Filing

/-- A computation that only reports. -/
def ofLogged {α : Type} (x : Logged α) : Filing α := do
  let (r, log) := x.outcome
  modify fun w => { w with log := w.log ++ log }
  (r : Except Failure α)

/-- Makes a directory and the ones above it. -/
def makeDirectories (p : FilePath) : Filing Unit := do
  let (files, r) := (← get).files.makeDirectories p
  modify fun w => { w with files := files }
  (r : Except Failure Unit)

/-- Writes a file. -/
def writeBytes (p : FilePath) (bytes : List UInt8) : Filing Unit := do
  let files ← ((← get).files.write p bytes : Except Failure FileTree)
  modify fun w => { w with files := files }

end Filing

namespace Emit

/-- Writes a content. Only a text can be written; one that has no bytes
leaves an empty file behind. -/
def writeContent (path : FilePath) (content : Data) : Filing Unit :=
  match content with
  | .scalar (.str s) =>
    match Text.encode? s with
    | some bytes => Filing.writeBytes path bytes
    | none => do
      Filing.writeBytes path []
      throw .halfCharacter
  | _ => throw .contentNotText

/-- Writes a file and the directories it needs. -/
def writeFile (path : FilePath) (content : Data) : Filing Unit := do
  Filing.makeDirectories path.parent
  writeContent path content
  Filing.ofLogged (report .debug .writer s!"Wrote {path.text}")

/-- Writes files below a directory and tells where they went. -/
def write (out : FilePath) (files : List (String × Data)) : Filing (List FilePath) :=
  files.mapM fun f => do
    let path := out.join (.ofText f.1)
    writeFile path f.2
    return path

/-- Renders all files of a specification and writes them below a
directory. -/
def generate (spec : Spec) (out : FilePath) (config : Option Config) (seed : Option Seed) :
    Filing (List FilePath) := do
  let b ← Filing.ofLogged (spec.blueprint config seed)
  let rendered ← (files b : Except Failure (List (String × String)))
  write out (rendered.map fun f => (f.1, .str f.2))

end Emit

end ApiMock
