import ApiMock.Operation.Parse
/-!
# Spec — the specification

A whole API specification: its title and servers, its operations in the
order of the paths, and its definitions. Reading one follows no
reference in a schema, and a missing list or map is an empty one.
-/

namespace ApiMock

/-- What a document says about itself. -/
structure Info where
  title : String
  version : String
  description : Option String

/-- A server the API runs on. -/
structure Server where
  url : String
  description : Option String

/-- An API specification. -/
structure Spec where
  info : Info
  servers : List Server
  operations : List Operation
  schemas : Definitions

namespace Spec

/-- The methods a path can have, in the order operations are listed. -/
def methods : List String :=
  ["get", "post", "put", "patch", "delete", "options", "head"]

/-- The operation of one method of a path, if the path has it. -/
def parseMethod (document : Data) (path : String) (item shared : Data) (method : String) :
    Except Failure (Option Operation) := do
  match ← item.field method with
  | .scalar .null => return none
  | operation => some <$> Operation.parse path method operation document shared

/-- The operations of a path. -/
def parsePath (document : Data) (path : Scalar) (item : Data) : Except Failure (List Operation) := do
  if item.truthy then
    let shared ← item.field "parameters"
    let path ← (Data.scalar path).text
    return (← methods.mapM (parseMethod document path item shared)).filterMap id
  else return []

/-- What a document says about itself. -/
def parseInfo (info : Data) : Except Failure Info := do
  let es ← info.entries
  let title := (Data.lookup "title" es).getD (.str "")
  let version := (Data.lookup "version" es).getD (.str "")
  let description := Schema.fieldOf "description" es
  let version ← version.plainText
  Data.refuseFaults (title.textFaults "title" ++ description.optionalTextFaults "description")
  return ⟨title.fieldText?.getD "", version, description.fieldText?⟩

/-- A server. -/
def parseServer (server : Data) : Except Failure Server := do
  let es ← server.entries
  let url := (Data.lookup "url" es).getD (.str "")
  let description := Schema.fieldOf "description" es
  Data.refuseFaults (url.textFaults "url" ++ description.optionalTextFaults "description")
  return ⟨url.fieldText?.getD "", description.fieldText?⟩

/-- The specification a document holds. -/
def parse (document : Data) : Except Failure Spec := do
  let info ← document.field "info"
  let paths ← (← document.field "paths").orEmpty.entries
  let operations ← paths.mapM fun e => parsePath document e.1 e.2
  let definitions ← (← (← document.field "components").orEmpty.field "schemas").orEmpty.entries
  let schemas ← Schema.parseEntries definitions
  let info ← parseInfo info.orEmpty
  let servers ← (← (← document.field "servers").elementsOrNone).mapM parseServer
  Data.refuseFaults (Data.keyFaults "schemas" (schemas.map Prod.fst))
  return ⟨info, servers, operations.flatten, Data.textKeyed schemas⟩

end Spec

end ApiMock
