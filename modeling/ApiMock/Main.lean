import ApiMock.Cli.Run
/-!
# Main — the program

The files that a command line names are read into a tree, the run is
worked out on the tree, and what it changed is written back. The places
it writes to are known only afterwards; they are looked at then, and the
run is worked out once more on all of them.
-/

namespace ApiMock

namespace Main

/-- A text of the program as the system has it. -/
def outward (s : String) : String :=
  String.ofList ((Text.chars? s.toList).getD s.toList)

/-- A text of the system as the program has it. -/
def inward (s : String) : String :=
  String.ofList (Text.ofChars s.toList)

/-- The way to a place in the file system. -/
def wayTo (here : Location) : String :=
  match here with
  | [] => "."
  | root :: names =>
    outward (if root.startsWith "/" then root ++ String.intercalate "/" names
      else String.intercalate "/" here)

/-- What an open handle leads to. A directory can be opened, not read. -/
def entryBehind (handle : IO.FS.Handle) : IO FileEntry := do
  try return .file (← handle.readBinToEnd).toList
  catch _ => return .directory

/-- What stands at a place in the file system. -/
def look (here : Location) : IO (Option FileEntry) := do
  try
    let handle ← IO.FS.Handle.mk (wayTo here) .read
    return some (← entryBehind handle)
  catch _ => return none

/-- Adds what stands at a place, and on the way there. -/
def addPlace (files : FileTree) (here : Location) : IO FileTree := do
  let mut files := files
  for count in List.range here.length do
    let place := here.take (count + 1)
    if !FileTree.isFixed place then
      if let some entry ← look place then files := files.put place entry
  return files

/-- The texts of a command line that may be paths. -/
def candidates (args : List String) : List String :=
  Cli.defaultOutput :: args.flatMap fun arg =>
    [arg, String.ofList (arg.toList.drop 2), ((Cli.splitValue arg).2).getD ""]

/-- The place that a text leads to, if no name on the way leads back. -/
def placeOf (text : String) : Location :=
  let path := FilePath.ofText text
  FileTree.startOf path.root ++ path.names

/-- The places at which two trees differ. -/
def changed (before after : FileTree) : List Location :=
  (after.entries.filter fun e => before.entry? e.1 ≠ some e.2).map (·.1)

/-- Writes back what stands at a place of a tree. -/
def store (files : FileTree) (here : Location) : IO Unit := do
  match files.entry? here with
  | some .directory => IO.FS.createDirAll (wayTo here)
  | some (.file bytes) => IO.FS.writeBinFile (wayTo here) ⟨bytes.toArray⟩
  | none => return

/-- The program as it is called from a shell. -/
def program : Cli.Program := ⟨"main", 80⟩

/-- Works the run out on the files that matter, and writes back. -/
def run (args : List String) : IO UInt32 := do
  let mut files := FileTree.empty
  for text in candidates args do
    files ← addPlace files (placeOf text)
  for place in changed files (Cli.run program files args).files do
    files ← addPlace files place
  let outcome := Cli.run program files args
  for place in changed files outcome.files do
    store outcome.files place
  (← IO.getStdout).putStr (outward outcome.stdout)
  (← IO.getStderr).putStr (outward outcome.stderr)
  return UInt32.ofNat outcome.exitCode

end Main

end ApiMock

/-- Generates mock API files from the command line's specification. -/
def main (args : List String) : IO UInt32 :=
  ApiMock.Main.run (args.map ApiMock.Main.inward)
