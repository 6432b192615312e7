import ApiMock.Blueprint.Basic
import ApiMock.Route.Classify
import ApiMock.TypeScript.Resolve
/-!
# Blueprint — from a specification

How a specification, settings and seed records become a blueprint. All
types are resolved in one pass that shares its expansions: first the
declarations, then, after the routes are grouped, the types of the
operations in their order. Function names that occur twice in a group are
reported.
-/

namespace ApiMock

namespace Blueprint

open TypeScript

/-- The media type whose schemas become types. -/
def jsonContent : String := "application/json"

/-- The type of a schema in an operation. -/
def typeOf (defs : Definitions) (s : Schema) : Resolving TypeExpr := do
  return (← resolve defs [] s).type

/-- A field of a request for each of some parameters. -/
def requestFields (defs : Definitions) (required : Parameter → Bool) (ps : List Parameter) :
    Resolving (List (PropertyKey × TypeExpr)) :=
  ps.mapM fun p => do return (⟨p.name, required p⟩, ← typeOf defs p.schema)

/-- The type of the request of an operation; only one with a body has it. -/
def requestType (defs : Definitions) (o : Operation) : Resolving (Option RequestType) :=
  match o.body with
  | none => pure none
  | some body => do
    let pathFields ← requestFields defs (fun _ => true) (o.parametersIn "path")
    let queryFields ← requestFields defs (·.required) (o.parametersIn "query")
    let body ← (body.content.lookup jsonContent).mapM (typeOf defs)
    return some ⟨pathFields, queryFields, body⟩

/-- The type of the first response whose status starts with a two. -/
def responseType (defs : Definitions) (o : Operation) : Resolving (Option TypeExpr) :=
  match o.responses.find? fun r => r.status.toList.head? = some '2' with
  | none => pure none
  | some r => (r.content.lookup jsonContent).mapM (typeOf defs)

/-- The types of an operation. -/
def endpointTypes (defs : Definitions) (o : Operation) : Resolving EndpointTypes := do
  let request ← requestType defs o
  let response ← responseType defs o
  return ⟨Naming.pascal o.id, request, response⟩

/-- The message for a function that replaces another in its group. -/
def repeatedMessage (group : String) (r : Route) : String :=
  s!"Function {r.functionName} is emitted twice in group {group} " ++
    s!"({r.method} {r.path} overrides it)"

/-- The messages for the functions of a group; `seen` are those before. -/
def repeatedMessages (group : String) (seen : List String) : List Route → List String
  | [] => []
  | r :: rest =>
    let others := repeatedMessages group (r.functionName :: seen) rest
    if seen.contains r.functionName then repeatedMessage group r :: others else others

/-- A group with its seed records. -/
def group (seed : Option Seed) (key : String) (routes : List Route) : Resolving Group := do
  (repeatedMessages key [] routes).forM (warn .blueprint)
  return ⟨key, routes, Seed.records seed key⟩

/-- The blueprint of a specification, within one pass. -/
def build (s : Spec) (config : Option Config) (seed : Option Seed) : Resolving Blueprint := do
  let table ← declareAll s.schemas
  let routes ← (s.routes : Except Failure (List (String × List Route)))
  let groups ← routes.mapM fun g => group seed g.1 g.2
  let endpoints ← s.operations.mapM (endpointTypes s.schemas)
  return ⟨s.info, s.servers, config.getD Config.defaults, table.map fun e => e.2.declaration,
    endpoints, groups⟩

end Blueprint

/-- The blueprint of a specification. -/
def Spec.blueprint (s : Spec) (config : Option Config) (seed : Option Seed) : Logged Blueprint :=
  (Blueprint.build s config seed).logged

end ApiMock
