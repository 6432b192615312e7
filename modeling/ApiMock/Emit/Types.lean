import ApiMock.Blueprint.Basic
import ApiMock.Emit.Lines
/-!
# Emit — the types file

The declarations of all named types, and the request and response types
of all operations.
-/

namespace ApiMock

namespace Emit

open TypeScript (PropertyKey TypeExpr)

/-- The lines that say what the types belong to. -/
def typesHeader (info : Info) : List String :=
  ["// Generated TypeScript interfaces from Swagger specification",
   "// API: " ++ info.title ++ " v" ++ info.version] ++
    (if (info.description.getD "").isEmpty then []
     else ["// " ++ flat (info.description.getD "")])

/-- The types that do not depend on the specification. -/
def commonTypes : List String := [
  "",
  "// Common types",
  "export interface ApiResponse<T = any> \x7b",
  "  data: T;",
  "  status: number;",
  "  statusText: string;",
  "  headers: Record<string, string>;",
  "\x7d",
  "",
  "export interface ApiError \x7b",
  "  message: string;",
  "  status: number;",
  "  details?: any;",
  "\x7d",
  "",
  "export interface PaginatedResponse<T> \x7b",
  "  data: T[];",
  "  total: number;",
  "  page: number;",
  "  pageSize: number;",
  "  hasNext: boolean;",
  "  hasPrevious: boolean;",
  "\x7d",
  ""]

/-- A field of a request on a line of its own. -/
def fieldLine (indent : String) (f : PropertyKey × TypeExpr) : String :=
  indent ++ f.1.render ++ ": " ++ f.2.render ++ ";"

/-- The query of a request, if it has fields. -/
def queryLines (fields : List (PropertyKey × TypeExpr)) : List String :=
  if fields.isEmpty then []
  else ["  params?: \x7b"] ++ fields.map (fieldLine "    ") ++ ["  \x7d;"]

/-- The body of a request, if it has a type with a text. -/
def bodyLines (body : Option TypeExpr) : List String :=
  let text := (body.map TypeExpr.render).getD ""
  if text.isEmpty then [] else ["  body: " ++ text ++ ";"]

/-- The type of the request of an operation. -/
def requestLines (name : String) (r : RequestType) : List String :=
  ["export interface " ++ name ++ "Request \x7b"] ++ r.pathFields.map (fieldLine "  ") ++
    queryLines r.queryFields ++ bodyLines r.body ++ ["\x7d", ""]

/-- The types of an operation. -/
def endpointLines (e : EndpointTypes) : List String :=
  (e.request.map (requestLines e.name)).getD [] ++
    ["export type " ++ e.name ++ "Response = ApiResponse<" ++ e.responseText ++ ">;", ""]

/-- The lines with all types. -/
def typesLines (b : Blueprint) : List String :=
  typesHeader b.info ++ commonTypes ++ b.declarations.flatMap (fun d => [d.render, ""]) ++
    ["// Endpoint-specific types", ""] ++ b.endpoints.flatMap endpointLines

/-- The file with all types. -/
def typesFile (b : Blueprint) : String := unlines (typesLines b)

end Emit

end ApiMock
