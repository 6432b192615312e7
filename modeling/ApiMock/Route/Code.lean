import ApiMock.Route.Basic
/-!
# Route — code of a method

The pieces of TypeScript that make up the method of a route: its
arguments, the names it logs, and what it passes on to the store. The
path parameters come first, each under an identifier of its own, then the
query as one object, then the body. A query whose parameters may all be
missing is optional; before a body it has a default instead, because an
optional argument may not stand before a required one.
-/

namespace ApiMock

/-- An argument of a method. -/
structure Argument where
  name : String
  optional : Bool
  type : String
  defaultsToEmpty : Bool

/-- The text of an argument. -/
def Argument.render (a : Argument) : String :=
  a.name ++ (if a.optional then "?" else "") ++ ": " ++ a.type ++
    (if a.defaultsToEmpty then " = \x7b\x7d" else "")

namespace Route

open TypeScript (propertyKey)

/-- The name of the argument that holds the query. -/
def queryName : String := "params"

/-- The name of the argument that holds the body. -/
def bodyName : String := "body"

/-- The type of the query object. -/
def queryShape (r : Route) : String :=
  "\x7b " ++
    String.intercalate " "
      (r.queryParams.map fun q => propertyKey q.name q.required ++ ": " ++ q.type.render ++ ";") ++
    " \x7d"

/-- The argument for the query, if the route has one. -/
def queryArgument? (r : Route) : Option Argument :=
  if r.queryParams.isEmpty then none
  else if r.queryParams.any (·.required) then some ⟨queryName, false, r.queryShape, false⟩
  else if r.hasBody then some ⟨queryName, false, r.queryShape, true⟩
  else some ⟨queryName, true, r.queryShape, false⟩

/-- The argument for the body, if the route has one. -/
def bodyArgument? (r : Route) : Option Argument :=
  if r.hasBody then some ⟨bodyName, false, "any", false⟩ else none

/-- The arguments of the method of a route. -/
def arguments (r : Route) : List Argument :=
  (r.pathParams.map fun p => ⟨Naming.identifier p.name, false, p.type.render, false⟩) ++
    r.queryArgument?.toList ++ r.bodyArgument?.toList

/-- The argument list of the method of a route. -/
def signature (r : Route) : String :=
  String.intercalate ", " (r.arguments.map Argument.render)

/-- The names that the method of a route logs. -/
def loggedNames (r : Route) : List String :=
  (r.pathParams.map fun p => Naming.identifier p.name) ++
    (if r.queryParams.isEmpty then [] else [queryName]) ++
    (if r.hasBody then [bodyName] else [])

/-- The id in the body, if there is a body. -/
def bodyId (r : Route) : String :=
  if r.hasBody then "String(body?.id ?? '')" else "''"

/-- The expression for the id of the record a route is about. -/
def idExpression (r : Route) : String :=
  match r.idParam? with
  | some name =>
    if name.isEmpty then r.bodyId else "String(" ++ Naming.identifier name ++ ")"
  | none => r.bodyId

/-- What the method of a route passes on to the store. -/
def storeArguments (r : Route) : String :=
  let body := if r.hasBody then bodyName else "\x7b\x7d"
  match r.intent with
  | .list | .custom => if r.queryParams.isEmpty then "" else queryName
  | .getById | .delete => r.idExpression
  | .create => body
  | .update => r.idExpression ++ ", " ++ body

/-- What the comment of a method says: the summary, or method and path. -/
def doc (r : Route) : String :=
  match r.summary with
  | some s => if s.isEmpty then r.method ++ " " ++ r.path else s
  | none => r.method ++ " " ++ r.path

end Route

end ApiMock
