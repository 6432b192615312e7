import ApiMock.Entries
import ApiMock.Route.Basic
import ApiMock.Spec
/-!
# Route — from operations to groups

How an operation becomes a route, and how routes gather in groups. The
path parameters follow the placeholders of the path, and declared ones
that the path does not show come after them. The status of success is the
first declared code that starts with a two and has only digits, that of
an error the first with a four. Groups stand in the order of their first
route.
-/

namespace ApiMock

open TypeScript (TypeExpr)

/-- The number a status code writes. Digits without a place value write
none, nor do more than 4300 digits. -/
def statusNumber (code : List Char) : Except Failure Nat :=
  match Text.natOfDigits? code with
  | some n => if code.length ≤ 4300 then .ok n else .error (.badValue "too many digits")
  | none => .error (.badValue "not a number")

/-- The first declared status that starts with a digit. -/
def firstStatus (first : Char) (responses : List Response) : Except Failure (Option Nat) :=
  match responses.find? fun r =>
    r.status.toList.head? = some first && r.status.toList.all Text.isDigitLike with
  | none => .ok none
  | some r => some <$> statusNumber r.status.toList

namespace Route

/-- The status of success of a method without a declared one. -/
def defaultSuccess (method : String) : Nat :=
  if method = "POST" then 201 else if method = "DELETE" then 204 else 200

/-- The status of an error without a declared one. -/
def defaultError : Nat := 400

/-- The declared path parameters, by name. -/
def declaredPathParams (o : Operation) : List (String × Parameter) :=
  Entries.ofList ((o.parametersIn "path").map fun p => (p.name, p))

/-- The path parameters: those the path shows, then the other declared ones. -/
def pathParamsOf (o : Operation) : List PathParam :=
  let declared := declaredPathParams o
  let shown := Naming.placeholders o.path
  let hidden := (Entries.keys declared).filter fun name => !shown.contains name
  (shown ++ hidden).map fun name =>
    match declared.lookup name with
    | some p => ⟨name, TypeExpr.ofForm p.schema⟩
    | none => ⟨name, .keyword .string⟩

/-- The query parameters, as declared. -/
def queryParamsOf (o : Operation) : List QueryParam :=
  (o.parametersIn "query").map fun p => ⟨p.name, TypeExpr.ofForm p.schema, p.required⟩

/-- The summary of an operation, or else its description. -/
def summaryOf (o : Operation) : Option String :=
  match o.summary with
  | some s => if s.isEmpty then o.description else some s
  | none => o.description

/-- The route of an operation. -/
def classify (o : Operation) : Except Failure Route := do
  let success ← firstStatus '2' o.responses
  let failure ← firstStatus '4' o.responses
  return {
    group := Naming.groupKey o.tags
    intent := Intent.classify o.method o.path
    functionName := Naming.functionName o.method o.path (if o.idDeclared then some o.id else none)
    method := Naming.upper o.method
    path := o.path
    summary := summaryOf o
    pathParams := pathParamsOf o
    queryParams := queryParamsOf o
    hasBody := o.body.isSome && Naming.upper o.method ≠ "GET"
    successStatus := success.getD (defaultSuccess (Naming.upper o.method))
    errorStatus := failure.getD defaultError }

/-- Adds a route at the end of its group. -/
def addToGroup (groups : List (String × List Route)) (r : Route) : List (String × List Route) :=
  Entries.modify r.group [] (· ++ [r]) groups

/-- Routes by group, the groups in the order of their first route. -/
def byGroup (routes : List Route) : List (String × List Route) :=
  routes.foldl addToGroup []

end Route

/-- The routes of a specification by group. -/
def Spec.routes (s : Spec) : Except Failure (List (String × List Route)) := do
  return Route.byGroup (← s.operations.mapM Route.classify)

end ApiMock
