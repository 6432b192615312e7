import ApiMock.Files.Tree
import ApiMock.Seed.Basic
import ApiMock.Yaml.Value
/-!
# Seed — records from a file

The records of a seed file. A file that is missing or cannot be used is
reported, and there are no records then.
-/

namespace ApiMock

namespace Seed

/-- The records that a file holds. -/
def ofFile (files : FileTree) (path : FilePath) : Logged Seed := do
  let document ← (do Yaml.load (← files.readText path) : Except Failure Data)
  ofDocument document

/-- A file that fails in this way is left aside. -/
def isForgiven : Failure → Bool
  | .file _ => true
  | .notYaml => true
  | .seedNotMapping => true
  | _ => false

/-- The records of a file, or none if it cannot be used. -/
def ofFile? (files : FileTree) (path : FilePath) : Logged (Option Seed) :=
  tryCatch (some <$> ofFile files path) fun f =>
    if isForgiven f then do
      report .warning .seed s!"Could not load seed file {path.text}: {f.inWarning}"
      return none
    else throw f

/-- The records of a file, if one is named. -/
def load (files : FileTree) (path : Option FilePath) : Logged (Option Seed) := do
  match path with
  | none => return none
  | some path =>
    if !(← (files.contains path : Except Failure Bool)) then
      report .warning .seed s!"Seed file not found: {path.text}"
      return none
    match ← ofFile? files path with
    | none => return none
    | some seed =>
      report .debug .seed s!"Seed data loaded: {seed.summary}"
      return some seed

end Seed

end ApiMock
