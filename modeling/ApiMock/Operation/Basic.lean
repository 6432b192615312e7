import ApiMock.Schema.Basic
/-!
# Operation — operations

One method bound to one path, with its parameters, its body and its
responses as far as a generated client and store need them.
-/

namespace ApiMock

/-- A parameter of an operation; `location` says whether it stands in the
path, the query, a header or a cookie. -/
structure Parameter where
  name : String
  location : String
  required : Bool
  schema : Schema
  description : Option String

/-- The body of a request, by media type. -/
structure RequestBody where
  required : Bool
  content : List (String × Schema)

/-- A response, by status code and media type. -/
structure Response where
  status : String
  description : String
  content : List (String × Schema)

/-- An operation. The method is in upper case; `idDeclared` says whether
the document names the operation or the id was made from method and path. -/
structure Operation where
  path : String
  method : String
  id : String
  idDeclared : Bool
  summary : Option String
  description : Option String
  parameters : List Parameter
  body : Option RequestBody
  responses : List Response
  tags : List String

namespace Operation

/-- The parameters in one place of the request. -/
def parametersIn (o : Operation) (location : String) : List Parameter :=
  o.parameters.filter (·.location = location)

end Operation

end ApiMock
