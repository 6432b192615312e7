/-!
# Failure — why a run stops

Everything that can stop a step of the program, by cause. Documents are
not trusted: a description may be a number where a text was expected, a
list may stand where entries are looked up. The texts of the failures
that a reader is shown are in `Failure.message?`.
-/

namespace ApiMock

/-- A field of a record that refused its value: where, and why. -/
structure FieldFault where
  place : String
  reason : String
  deriving DecidableEq, Repr

/-- Why a file could not be read or written. -/
inductive FileFault where
  | missing
  | isDirectory
  | notDirectory
  | alreadyExists
  | nameTooLong
  deriving DecidableEq, Repr

/-- The operating system's words for a fault. -/
def FileFault.text : FileFault → String
  | .missing => "[Errno 2] No such file or directory"
  | .isDirectory => "[Errno 21] Is a directory"
  | .notDirectory => "[Errno 20] Not a directory"
  | .alreadyExists => "[Errno 17] File exists"
  | .nameTooLong => "[Errno 36] File name too long"

/-- Why a document is refused as an API specification. -/
inductive SpecFault where
  | unreadable (path reason : String)
  | notParsed (path : String)
  | rootNotObject
  | oldFormat (version : String)
  | unknownVersion (version : String)
  | misshapen (fault : FieldFault)
  deriving DecidableEq, Repr

/-- The message of a refused specification. -/
def SpecFault.message (f : SpecFault) : String :=
  "Failed to parse Swagger specification: " ++
    match f with
    | .unreadable path reason => s!"cannot read {path}: {reason}"
    | .notParsed path => s!"{path} is not valid JSON or YAML"
    | .rootNotObject => "document root must be an object"
    | .oldFormat version =>
      s!"Swagger {version} documents are not supported; convert to OpenAPI 3 first"
    | .unknownVersion version => s!"unsupported or missing OpenAPI version {version}"
    | .misshapen fault => s!"{fault.place}: {fault.reason}"

/-- Why a step of the program stops. -/
inductive Failure where
  /-- Entries were looked up in something that is no mapping. -/
  | notMapping
  /-- A text was needed and something else was there. -/
  | notText
  /-- A text was needed and a byte string was there. -/
  | bytesNotText
  /-- A text was needed and the entries of a mapping were there. -/
  | entriesNotText
  /-- The elements were needed of something that has none. -/
  | notIterable
  /-- An element by number was needed of something unnumbered. -/
  | notIndexed
  /-- A collection was used as a key. -/
  | unhashable
  /-- The value has no JSON text. -/
  | notJson
  /-- Keys of different kinds were to be sorted. -/
  | mixedKeys
  /-- A setting has a name that is no text. -/
  | settingNameNotText
  /-- A setting has the name that the path of the file goes by. -/
  | settingNamedPath
  /-- A file was to be written with something that is no text. -/
  | contentNotText
  /-- A file was to be written with a text that holds half a character. -/
  | halfCharacter
  /-- The settings were to be printed with half a character in them. -/
  | unprintableSettings
  /-- A mapping was asked for an entry it lacks. -/
  | missingEntry
  /-- A text was asked for a character it lacks. -/
  | missingIndex
  /-- A value out of its range, or a numeral that writes no number. -/
  | badValue (reason : String)
  /-- A number too great for a floating-point value. -/
  | overflow
  /-- A value that holds itself. -/
  | endless
  /-- A record refused some of its fields. -/
  | refused (faults : List FieldFault)
  /-- The specification was refused. -/
  | spec (fault : SpecFault)
  /-- The seed document is no mapping. -/
  | seedNotMapping
  /-- Bytes that are no UTF-8. -/
  | encoding
  /-- The document is no YAML. -/
  | notYaml
  /-- The file system refused. -/
  | file (fault : FileFault)
  deriving DecidableEq, Repr

/-- The message of a failure, for those that have one of their own. -/
def Failure.message? : Failure → Option String
  | .refused faults =>
    some (String.intercalate "; " (faults.map fun f => s!"{f.place}: {f.reason}"))
  | .spec fault => some fault.message
  | .seedNotMapping => some "Seed data must be a JSON object"
  | _ => none

/-- How a warning names a failure: by its own words if the cause is in the
data, by a tag if another program would have to word it. -/
def Failure.inWarning : Failure → String
  | .seedNotMapping => "Seed data must be a JSON object"
  | .badValue reason => reason
  | .refused _ => "<ValidationError>"
  | .encoding => "<UnicodeDecodeError>"
  | .notYaml => "<YAMLError>"
  | .file _ => "<OSError>"
  | _ => ""

end ApiMock
