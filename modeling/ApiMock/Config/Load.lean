import ApiMock.Config.Basic
import ApiMock.Files.Tree
import ApiMock.Log
import ApiMock.Yaml.Value
/-!
# Config — settings from a file

Settings stated by the caller, with those of a file laid over them. In a
file a setting may go by either name; of several entries for one setting
the last one counts. A file that cannot be used is reported and left
aside as a whole.
-/

namespace ApiMock

namespace Config

/-- The name of the setting that a key means; any other key as it is. -/
def settingName (key : String) : String :=
  match Setting.all.find? fun s => s.alias = key with
  | some s => s.name
  | none => key

/-- The named values of a file's entries. Every key must be a text. -/
def named (entries : List (Scalar × Data)) : Except Failure (List (String × Data)) := do
  let pairs ← entries.mapM fun e =>
    match e.1 with
    | .str key => .ok (settingName key, e.2)
    | _ => .error .settingNameNotText
  return Entries.ofList pairs

/-- What a document has to be that states settings. -/
def notObject : String := "config file must contain an object"

/-- The settings of a document over given ones. A document that counts as
false states nothing. -/
def overlay (base : Config) (document : Data) : Except Failure Config := do
  match document.orEmpty with
  | .map entries => ofValues (Entries.merge base.values (← named entries))
  | _ => throw (.badValue notObject)

/-- The settings of a file over given ones. -/
def ofFile (base : Config) (files : FileTree) (path : FilePath) : Except Failure Config := do
  overlay base (← Yaml.load (← files.readText path))

/-- A file that fails in this way is left aside. -/
def isForgiven : Failure → Bool
  | .file _ => true
  | .notYaml => true
  | .encoding => true
  | .refused _ => true
  | .badValue _ => true
  | _ => false

/-- The settings that were stated: those without a value do not count. -/
def stated (values : List (String × Data)) : List (String × Data) :=
  values.filter fun v => !v.2.isNull

/-- The name that the path of the file goes by. No setting may have it. -/
def pathName : String := "path"

/-- The settings stated by the caller, and over them those of a file, if
there is one and it can be used. -/
def load (files : FileTree) (path : Option FilePath) (values : List (String × Data)) :
    Logged Config := do
  if (values.lookup pathName).isSome then throw .settingNamedPath
  let base ← (ofValues (stated values) : Except Failure Config)
  match path with
  | none => return base
  | some path =>
    match ofFile base files path with
    | .ok c => return c
    | .error f =>
      if isForgiven f then
        report .warning .config
          s!"Could not load config file {path.text}, using defaults: {f.inWarning}"
        return base
      else throw f

end Config

end ApiMock
