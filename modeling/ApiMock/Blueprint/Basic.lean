import ApiMock.Config.Basic
import ApiMock.Route.Code
import ApiMock.Seed.Basic
import ApiMock.Spec
import ApiMock.TypeScript.Declaration
/-!
# Blueprint — what is generated

Everything the generated files are made of: declarations of the named
types, request and response types of the operations, and for every group
its routes and its seed records.
-/

namespace ApiMock

open TypeScript (Declaration PropertyKey TypeExpr)

/-- The type of the request of an operation. -/
structure RequestType where
  pathFields : List (PropertyKey × TypeExpr)
  queryFields : List (PropertyKey × TypeExpr)
  body : Option TypeExpr

/-- The types of an operation; a response without a type is `void`. -/
structure EndpointTypes where
  name : String
  request : Option RequestType
  response : Option TypeExpr

/-- The text of the type of a response. -/
def EndpointTypes.responseText (e : EndpointTypes) : String :=
  match e.response with
  | some t => t.render
  | none => "void"

/-- A group of routes over one store. -/
structure Group where
  key : String
  routes : List Route
  seed : List Data

namespace Group

/-- The stem of the files of a group, which also names its store. -/
def slug (g : Group) : String := Naming.kebab g.key

/-- The class of the client of a group. -/
def apiClass (g : Group) : String := g.key ++ "Api"

/-- The class of the store of a group. -/
def dbClass (g : Group) : String := g.key ++ "Database"

/-- The one client of a group. -/
def instanceName (g : Group) : String := Naming.camel g.key ++ "Api"

end Group

/-- What is generated. -/
structure Blueprint where
  info : Info
  servers : List Server
  config : Config
  declarations : List Declaration
  endpoints : List EndpointTypes
  groups : List Group

end ApiMock
