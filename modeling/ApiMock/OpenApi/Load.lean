import ApiMock.Files.Tree
import ApiMock.OpenApi.Validate
import ApiMock.Yaml.Value
/-!
# OpenApi — loading a document

The document of a file. A file that cannot be read and a text that is no
YAML are reported as faults of the specification.
-/

namespace ApiMock

namespace OpenApi

/-- A failure as a fault of the specification at a path, where it is one. -/
def asSpecFault (path : FilePath) (f : Failure) : Failure :=
  match f with
  | .file fault => .spec (.unreadable path.text (fault.text ++ ": " ++ Text.quoted path.text))
  | .notYaml => .spec (.notParsed path.text)
  | f => f

/-- The value that a file holds. -/
def readDocument (files : FileTree) (path : FilePath) : Except Failure Data :=
  (do Yaml.load (← files.readText path)).mapError (asSpecFault path)

/-- The accepted document that a file holds. -/
def load (files : FileTree) (path : FilePath) : Logged Data := do
  validate (← (readDocument files path : Except Failure Data))

end OpenApi

end ApiMock
