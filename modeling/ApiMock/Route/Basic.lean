import ApiMock.Route.Intent
import ApiMock.Operation.Basic
import ApiMock.TypeScript.TypeExpr
/-!
# Route — routes

A route is an operation as the generated client sees it: its group, its
intent, the name and the arguments of its function, and the statuses it
answers with.
-/

namespace ApiMock

open TypeScript (TypeExpr)

/-- A parameter in the path of a route. -/
structure PathParam where
  name : String
  type : TypeExpr

/-- A parameter in the query of a route. -/
structure QueryParam where
  name : String
  type : TypeExpr
  required : Bool

/-- A route. -/
structure Route where
  group : String
  intent : Intent
  functionName : String
  method : String
  path : String
  summary : Option String
  pathParams : List PathParam
  queryParams : List QueryParam
  hasBody : Bool
  successStatus : Nat
  errorStatus : Nat

namespace Route

/-- The parameter that identifies a record: the last one of the path. -/
def idParam? (r : Route) : Option String :=
  r.pathParams.getLast?.map (·.name)

/-- The words for the status of success. -/
def successText (r : Route) : String := statusText r.successStatus

end Route

end ApiMock
