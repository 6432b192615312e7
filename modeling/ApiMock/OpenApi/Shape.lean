import ApiMock.Data.Coerce
/-!
# OpenApi — shapes

What an OpenAPI document may look like: shapes of values, and records
whose fields have shapes. A value that does not fit has a first misfit,
found in document order within lists and mappings and in the order of
the declared fields within records. A choice between shapes is a misfit
of the first of them, which then shows in the place.
-/

namespace ApiMock

namespace OpenApi

/-- The records of an OpenAPI document. -/
inductive Model where
  | openApi | info | contact | license | server | serverVariable | pathItem | operation
  | externalDocumentation | parameter | reference | schema | discriminator | xml | sample
  | mediaType | encoding | header | requestBody | response | link | components
  | securityScheme | oauthFlows | oauthFlow | tag
  deriving DecidableEq, Repr

/-- The name of a record in messages. -/
def Model.label : Model → String
  | openApi => "OpenAPI"
  | info => "Info"
  | contact => "Contact"
  | license => "License"
  | server => "Server"
  | serverVariable => "ServerVariable"
  | pathItem => "PathItem"
  | operation => "Operation"
  | externalDocumentation => "ExternalDocumentation"
  | parameter => "Parameter"
  | reference => "Reference"
  | schema => "Schema"
  | discriminator => "Discriminator"
  | xml => "XML"
  | sample => "Example"
  | mediaType => "MediaType"
  | encoding => "Encoding"
  | header => "Header"
  | requestBody => "RequestBody"
  | response => "Response"
  | link => "Link"
  | components => "Components"
  | securityScheme => "SecurityScheme"
  | oauthFlows => "OAuthFlows"
  | oauthFlow => "OAuthFlow"
  | tag => "Tag"

/-- What a value may look like. -/
inductive Shape where
  | anything
  | text
  | truth
  | number
  /-- A number above zero. -/
  | positive
  /-- A whole number that is not negative. -/
  | count
  /-- One of the words of a named vocabulary. -/
  | word (vocabulary : String) (choices : List String)
  /-- One of some texts. -/
  | literal (choices : List String)
  /-- The shape, or null. -/
  | optional (shape : Shape)
  | list (shape : Shape)
  | nonEmptyList (shape : Shape)
  | mapping (shape : Shape)
  | record (model : Model)
  | either (first : Shape) (others : List Shape)
  /-- The shape under another name. -/
  | named (name : String) (shape : Shape)

mutual
/-- The name of a shape in the place of a misfit. -/
def Shape.label : Shape → String
  | anything => "any"
  | text => "str"
  | truth => "bool"
  | number | positive => "float"
  | count => "int"
  | word vocabulary _ => s!"str-enum[{vocabulary}]"
  | literal _ => "literal"
  | optional shape => s!"nullable[{shape.label}]"
  | list shape | nonEmptyList shape => s!"list[{shape.label}]"
  | mapping shape => s!"dict[str,{shape.label}]"
  | record model => model.label
  | either first others =>
    "union[" ++ String.intercalate "," (first.label :: labels others) ++ "]"
  | named name _ => name

/-- The names of some shapes. -/
def Shape.labels : List Shape → List String
  | [] => []
  | shape :: rest => shape.label :: Shape.labels rest
end

/-- A field of a record. It may also be written under its `alternative`
name, which counts only if the field's own is missing. -/
structure Field where
  key : String
  alternative : Option String
  shape : Shape
  required : Bool

/-- Where a value does not fit, as a path of keys, and why. -/
structure Misfit where
  path : List String
  reason : String
  deriving Repr

/-- The misfit seen from one level up. -/
def Misfit.under (key : String) (m : Misfit) : Misfit :=
  { m with path := key :: m.path }

/-- The misfit as the fault of a field. -/
def Misfit.fault (m : Misfit) : FieldFault :=
  ⟨String.intercalate "." m.path, m.reason⟩

/-- A misfit right here. -/
def misfit {α : Type} (reason : String) : Except Misfit α := .error ⟨[], reason⟩

/-- A reader's verdict, as a misfit right here. -/
def here {α : Type} (r : Except String α) : Except Misfit Unit :=
  match r with
  | .ok _ => .ok ()
  | .error reason => misfit reason

/-- The keys of a record hold whole characters only, or the record does not
fit at all. -/
def wholeKeys (es : List (Scalar × Data)) : Except Misfit Unit :=
  if es.all fun e => (Text.chars? e.1.shown.toList).isSome then .ok ()
  else misfit Data.textUnclear

/-- A verdict about the value under a key. -/
def under (key : String) (r : Except Misfit Unit) : Except Misfit Unit :=
  r.mapError (·.under key)

/-- The key and the value of a field, if it is written. -/
def Field.written? (f : Field) (es : List (Scalar × Data)) : Option (String × Data) :=
  match Data.lookup f.key es with
  | some d => some (f.key, d)
  | none => f.alternative.bind fun key => (Data.lookup key es).map (key, ·)

theorem Field.sizeOf_written?_lt {f : Field} {es : List (Scalar × Data)} {key : String} {d : Data}
    (h : f.written? es = some (key, d)) : sizeOf d < sizeOf es := by
  unfold written? at h
  split at h
  · rename_i hd
    cases h
    exact Data.sizeOf_lookup_lt hd
  · obtain ⟨_, _, h⟩ := Option.bind_eq_some_iff.mp h
    obtain ⟨_, hd, h⟩ := Option.map_eq_some_iff.mp h
    cases h
    exact Data.sizeOf_lookup_lt hd

variable (fields : Model → List Field)

set_option linter.unusedVariables false in
mutual
/-- Whether a value fits a shape, or its first misfit. `fields` are the
fields of the records. -/
def Shape.check (shape : Shape) (d : Data) : Except Misfit Unit :=
  match shape with
  | .anything => .ok ()
  | .text => here d.fieldText
  | .truth => here (Coerce.truth d)
  | .number => here (Coerce.float d)
  | .positive => here (Coerce.positive d)
  | .count => here (Coerce.count d)
  | .word _ choices => here (Coerce.word choices d)
  | .literal choices => here (Coerce.literal choices d)
  | .optional inner =>
    match d with
    | .scalar .null => .ok ()
    | d => inner.check d
  | .list inner =>
    match d with
    | .list items => checkItems inner 0 items
    | .set members => checkMembers inner 0 members
    | _ => misfit "Input should be a valid list"
  | .nonEmptyList inner =>
    match d with
    | .list [] | .set [] => misfit "List should have at least 1 item after validation, not 0"
    | .list items => checkItems inner 0 items
    | .set members => checkMembers inner 0 members
    | _ => misfit "Input should be a valid list"
  | .mapping inner =>
    match d with
    | .map es => checkEntries inner es
    | _ => misfit "Input should be a valid dictionary"
  | .record model =>
    match d with
    | .map es => do
      wholeKeys es
      checkFields (fields model) es
    | _ => misfit s!"Input should be a valid dictionary or instance of {model.label}"
  | .either first others =>
    match first.check d with
    | .ok () => .ok ()
    | .error m => if checkOthers others d then .ok () else .error (m.under first.label)
  | .named _ inner => inner.check d
termination_by (sizeOf d, sizeOf shape)

/-- Whether the elements of a list fit, the first one being number `n`. -/
def checkItems (shape : Shape) (n : Nat) (items : List Data) : Except Misfit Unit :=
  match items with
  | [] => .ok ()
  | d :: rest => do
    under (toString n) (shape.check d)
    checkItems shape (n + 1) rest
termination_by (sizeOf items, sizeOf shape)

/-- Whether the members of a set fit, the first one being number `n`. -/
def checkMembers (shape : Shape) (n : Nat) (members : List Scalar) : Except Misfit Unit :=
  match members with
  | [] => .ok ()
  | s :: rest => do
    under (toString n) (shape.check (.scalar s))
    checkMembers shape (n + 1) rest
termination_by (sizeOf members, sizeOf shape)
decreasing_by
  · apply Prod.Lex.left
    cases rest <;> simp +arith
  · apply Prod.Lex.left
    simp +arith

/-- Whether the values of a mapping fit. -/
def checkEntries (shape : Shape) (es : List (Scalar × Data)) : Except Misfit Unit :=
  match es with
  | [] => .ok ()
  | (k, d) :: rest => do
    under (Text.withoutHalves k.shown) (shape.check d)
    checkEntries shape rest
termination_by (sizeOf es, sizeOf shape)

/-- Whether the fields of a record are there and fit. -/
def checkFields (fs : List Field) (es : List (Scalar × Data)) : Except Misfit Unit :=
  match fs with
  | [] => .ok ()
  | f :: rest =>
    match h : f.written? es with
    | some (key, d) => do
      under key (f.shape.check d)
      checkFields rest es
    | none =>
      if f.required then under f.key (misfit "Field required") else checkFields rest es
termination_by (sizeOf es, fs.length)
decreasing_by
  · exact Prod.Lex.left _ _ (Field.sizeOf_written?_lt h)
  · exact Prod.Lex.right _ (Nat.lt_succ_self _)
  · exact Prod.Lex.right _ (Nat.lt_succ_self _)

/-- Whether a value fits one of the other shapes of a choice. -/
def checkOthers (shapes : List Shape) (d : Data) : Bool :=
  match shapes with
  | [] => false
  | shape :: rest => (shape.check d).isOk || checkOthers rest d
termination_by (sizeOf d, sizeOf shapes)
end

end OpenApi

end ApiMock
