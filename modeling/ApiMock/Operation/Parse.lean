import ApiMock.Data.Shown
import ApiMock.OpenApi.Pointer
import ApiMock.Operation.Basic
import ApiMock.Schema.Parse
/-!
# Operation — reading operations

How an operation object becomes an operation. References on parameters,
bodies and responses are followed; those in schemas are kept. The
parameters of the path come first and those of the operation override
them: a later parameter with the same name and place takes over the place
of the earlier one.
-/

namespace ApiMock

open Schema (fieldOf)

/-! ## Content -/

/-- The schemas of a content object, by media type. -/
def parseContent (content : Data) : Except Failure (List (Scalar × Schema)) := do
  (← content.orEmpty.entries).mapM fun e => do
    return (e.1, ← Schema.parse (← e.2.orEmpty.field "schema"))

/-- The faults of content under keys that are no texts. -/
def contentFaults (content : List (Scalar × Schema)) : List FieldFault :=
  Data.keyFaults "content" (content.map Prod.fst)

/-! ## Parameters -/

/-- A parameter object as it stands, by its name and place. -/
structure RawParameter where
  name : Data
  location : Data
  fields : List (Scalar × Data)

/-- Name and place, by which a parameter overrides another. -/
structure ParameterKey where
  name : Data
  location : Data

instance : BEq ParameterKey where
  beq a b := a.name.sameKey b.name && a.location.sameKey b.location

/-- The name and place of a parameter. -/
def RawParameter.key (p : RawParameter) : ParameterKey := ⟨p.name, p.location⟩

/-- The parameter that an entry stands for. One that leads nowhere or has
no name is none. -/
def rawParameter (document entry : Data) : Except Failure (Option RawParameter) := do
  match ← Pointer.deref document entry with
  | .map es =>
    match Data.lookup "name" es with
    | none => return none
    | some name => return some ⟨name, (Data.lookup "in" es).getD (.str "query"), es⟩
  | _ => return none

/-- Adds the parameter an entry stands for, overriding one of its key. -/
def mergeParameter (document : Data) (merged : List (ParameterKey × RawParameter)) (entry : Data) :
    Except Failure (List (ParameterKey × RawParameter)) := do
  match ← rawParameter document entry with
  | none => return merged
  | some p =>
    if p.name.isHashable && p.location.isHashable then return Entries.put p.key p merged
    else .error .unhashable

/-- A parameter of these fields. -/
def RawParameter.parse (p : RawParameter) : Except Failure Parameter := do
  let schema ← Schema.parse (fieldOf "schema" p.fields)
  let description := fieldOf "description" p.fields
  Data.refuseFaults (p.name.textFaults "name" ++ p.location.textFaults "location" ++
    description.optionalTextFaults "description")
  return ⟨p.name.fieldText?.getD "", p.location.fieldText?.getD "", (fieldOf "required" p.fields).truthy,
    schema, description.fieldText?⟩

/-- The parameters of a path and of an operation on it. -/
def parseParameters (document shared own : Data) : Except Failure (List Parameter) := do
  let shared ← shared.elementsOrNone
  let own ← own.elementsOrNone
  let merged ← (shared ++ own).foldlM (mergeParameter document) []
  merged.mapM fun e => e.2.parse

/-! ## Bodies and responses -/

/-- The body of a request, if there is one. -/
def parseBody (body : Data) : Except Failure (Option RequestBody) := do
  if body.truthy then
    let required ← body.field "required"
    let content ← parseContent (← body.field "content")
    Data.refuseFaults (contentFaults content)
    return some ⟨required.truthy, Data.textKeyed content⟩
  else return none

/-- The response under a status code. -/
def parseResponse (status : Scalar) (response : Data) : Except Failure Response := do
  let description ← response.orEmpty.field "description"
  let content ← parseContent (← response.orEmpty.field "content")
  Data.refuseFaults ((if description.truthy then description.textFaults "description" else []) ++
    contentFaults content)
  return ⟨status.shown, description.fieldText?.getD "", Data.textKeyed content⟩

/-! ## Operations -/

namespace Operation

/-- The operation of a method on a path. `shared` are the parameters of
the path. -/
def parse (path method : String) (operation document shared : Data) :
    Except Failure Operation := do
  let document := document.orEmpty
  let declared ← operation.field "operationId"
  let responses ← (← (← operation.field "responses").orEmpty.entries).mapM fun e =>
    return (e.1, ← Pointer.deref document e.2)
  let summary ← operation.field "summary"
  let description ← operation.field "description"
  let parameters ← parseParameters document shared (← operation.field "parameters")
  let body ← parseBody (← Pointer.deref document (← operation.field "requestBody"))
  let responses ← responses.mapM fun e => parseResponse e.1 e.2
  let tags ← (← operation.field "tags").elementsOrNone
  let id := if declared.truthy then declared else .str (Naming.synthesizedId method path)
  Data.refuseFaults (id.textFaults "operation_id" ++ summary.optionalTextFaults "summary" ++
    description.optionalTextFaults "description" ++ Data.textListFaults "tags" tags)
  return {
    path
    method := Naming.upper method
    id := id.fieldText?.getD ""
    idDeclared := declared.truthy
    summary := summary.fieldText?
    description := description.fieldText?
    parameters
    body
    responses
    tags := tags.filterMap Data.fieldText? }

end Operation

end ApiMock
