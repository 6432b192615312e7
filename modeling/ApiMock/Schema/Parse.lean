import ApiMock.Data.Fields
import ApiMock.Naming
import ApiMock.Schema.Basic
/-!
# Schema — reading schemas

How a schema object of a document becomes a node. The first of these
that is there decides its form: `$ref`, `allOf`, `oneOf` or `anyOf`,
`enum`, an array, an object, a named type. What is no object, is empty,
or leaves the choice open is `unknown`.

`allOf` with one member is that member. With several it is an object that
has the properties of all, later ones winning, if every member is an
object; otherwise it is `unknown`.
-/

namespace ApiMock

namespace Schema

/-! ## Parts -/

/-- The type a schema names. Of a list of types the only one that is not
null counts, if there is only one. -/
def declaredType (es : List (Scalar × Data)) : Data :=
  match Data.lookup "type" es with
  | some (.list types) =>
    match types.filter fun t => t.text? ≠ some "null" with
    | [t] => t
    | _ => .null
  | some t => t
  | none => .null

/-- The value of a field of a schema; null if it is missing. -/
def fieldOf (name : String) (es : List (Scalar × Data)) : Data :=
  (Data.lookup name es).getD .null

/-- The faults of the fields that every form but references shares. -/
def sharedFaults (es : List (Scalar × Data)) : List FieldFault :=
  (declaredType es).optionalTextFaults "primitive" ++
    (fieldOf "format" es).optionalTextFaults "format" ++
    (fieldOf "description" es).optionalTextFaults "description"

/-- The description a schema gives its node. -/
def describe (es : List (Scalar × Data)) : Option Data :=
  (fieldOf "description" es).fieldText?.map .str

/-- The type a schema gives its node. -/
def declare (es : List (Scalar × Data)) : Option String :=
  (declaredType es).fieldText?

/-- The format a schema gives its node. -/
def formatOf (es : List (Scalar × Data)) : Option String :=
  (fieldOf "format" es).fieldText?

/-- Each element once, at its first place. -/
def distinctElements : List Data → List Data
  | [] => []
  | d :: rest => d :: (distinctElements rest).filter fun e => !d.sameKey e

/-- The set of names under `required`. -/
def requiredNames (es : List (Scalar × Data)) : Except Failure (List Data) := do
  let names ← (fieldOf "required" es).elementsOrNone
  if names.all Data.isHashable then return distinctElements names
  else .error .unhashable

/-- A reference to the definition its pointer ends in. -/
def referenceTo (pointer : Data) (es : List (Scalar × Data)) : Except Failure Schema := do
  let pointer ← pointer.text
  Data.refuseFaults ((fieldOf "description" es).optionalTextFaults "description")
  return reference (Naming.refName pointer) (describe es)

/-- An object node of these parts. -/
def objectOf (es : List (Scalar × Data)) (properties : List (Scalar × Schema))
    (required : List Data) : Except Failure Schema := do
  Data.refuseFaults (sharedFaults es ++ Data.keyFaults "properties" (properties.map Prod.fst) ++
    Data.textListFaults "required" required)
  return object (declare es) (formatOf es) (describe es) (Data.textKeyed properties)
    (required.filterMap Data.fieldText?).eraseDups

/-- An array node of these parts. -/
def arrayOf (es : List (Scalar × Data)) (items : Option Schema) : Except Failure Schema := do
  Data.refuseFaults (sharedFaults es)
  return array (declare es) (formatOf es) (describe es) items

/-- An enumeration node of these values. -/
def enumerationOf (es : List (Scalar × Data)) (values : Data) : Except Failure Schema := do
  let values ← values.elementsOrNone
  Data.refuseFaults (sharedFaults es)
  return enumeration (declare es) (formatOf es) (describe es) values

/-- A node of a named type. -/
def primitiveOf (es : List (Scalar × Data)) : Except Failure Schema :=
  match (declaredType es).text? with
  | some t => do
    Data.refuseFaults (sharedFaults es)
    return primitive t (formatOf es) (describe es)
  | none => .ok (unknown none)

/-- The members of an `allOf` as one node. -/
def mergeMembers (nodes : List Schema) : Schema :=
  if nodes.all fun n => n.kind = .object then
    object (some "object") none none
      (nodes.foldl (fun ps n => Entries.merge ps n.properties) [])
      (nodes.flatMap required).eraseDups
  else unknown none

/-- Hands the description of an `allOf` down to a node without one. -/
def inheritDescription (es : List (Scalar × Data)) (node : Schema) : Schema :=
  let outer := fieldOf "description" es
  if outer.truthy && node.description?.isNone then node.withDescription (some outer) else node

/-! ## Reading -/

set_option linter.unusedVariables false in
mutual
/-- The node of a schema. -/
def parse (d : Data) : Except Failure Schema :=
  match d with
  | .map es =>
    match Data.lookup "$ref" es with
    | some pointer => referenceTo pointer es
    | none =>
      match ha : Data.lookup "allOf" es with
      | some members => inheritDescription es <$> parseAllOf members
      | none =>
        if (Data.lookup "oneOf" es).isSome || (Data.lookup "anyOf" es).isSome then
          .ok (unknown none)
        else
          match Data.lookup "enum" es with
          | some values => enumerationOf es values
          | none =>
            match hi : Data.lookup "items" es with
            | some items =>
              if items.truthy then do arrayOf es (some (← parse items)) else arrayOf es none
            | none =>
              if (declaredType es).text? = some "array" then arrayOf es none
              else
                match hp : Data.lookup "properties" es with
                | some (.map ps) => do objectOf es (← parseEntries ps) (← requiredNames es)
                | some other =>
                  if other.truthy then .error .notMapping
                  else do objectOf es [] (← requiredNames es)
                | none =>
                  if (declaredType es).text? = some "object" then do
                    objectOf es [] (← requiredNames es)
                  else primitiveOf es
  | _ => .ok (unknown none)
termination_by sizeOf d
decreasing_by
  · have hm := Data.sizeOf_lookup_lt ha
    simp only [Data.map.sizeOf_spec]
    omega
  · have hm := Data.sizeOf_lookup_lt hi
    simp only [Data.map.sizeOf_spec]
    omega
  · have hm := Data.sizeOf_lookup_lt hp
    simp only [Data.map.sizeOf_spec] at hm ⊢
    omega

/-- The node of the members of an `allOf`. Only a list has members to
speak of; the elements of anything else are no schemas. -/
def parseAllOf (members : Data) : Except Failure Schema :=
  match members with
  | .list [d] => parse d
  | .list items => mergeMembers <$> parseItems items
  | .pair a b => do return mergeMembers [← parse a, ← parse b]
  | .map [(k, d)] => if k == .int 0 then parse d else .error .missingEntry
  | .map (_ :: _) => .ok (unknown none)
  | .set [_] => .error .notIndexed
  | .set (_ :: _) => .ok (unknown none)
  | .scalar (.str s) => .ok (if s.isEmpty then mergeMembers [] else unknown none)
  | .scalar (.bytes b) => .ok (if b.isEmpty then mergeMembers [] else unknown none)
  | d => if d.truthy then .error .notIterable else .ok (mergeMembers [])
termination_by sizeOf members

/-- The nodes of a list of schemas. -/
def parseItems (items : List Data) : Except Failure (List Schema) :=
  match items with
  | [] => .ok []
  | d :: rest => do return (← parse d) :: (← parseItems rest)
termination_by sizeOf items

/-- The nodes of named schemas. -/
def parseEntries (es : List (Scalar × Data)) : Except Failure (List (Scalar × Schema)) :=
  match es with
  | [] => .ok []
  | (k, d) :: rest => do return (k, ← parse d) :: (← parseEntries rest)
termination_by sizeOf es
end

end Schema

end ApiMock
