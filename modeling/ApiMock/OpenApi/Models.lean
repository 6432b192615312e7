import ApiMock.OpenApi.Shape
/-!
# OpenApi — the records of a document

The fields of every record, in the order they are checked, for the two
versions of the format. Most records are the same in both.
-/

namespace ApiMock

namespace OpenApi

/-- The versions of the format. -/
inductive Version where
  | v30
  | v31
  deriving DecidableEq, Repr

/-- A field that must be there. -/
def need (key : String) (shape : Shape) : Field := ⟨key, none, shape, true⟩

/-- A field that may be missing but not null. -/
def plain (key : String) (shape : Shape) : Field := ⟨key, none, shape, false⟩

/-- A field that may be missing or null. -/
def may (key : String) (shape : Shape) : Field := ⟨key, none, .optional shape, false⟩

/-- A field with a second name. -/
def also (alternative : String) (f : Field) : Field := { f with alternative := some alternative }

/-- A schema or a reference to one. -/
def schemaOrRef : Shape := .either (.record .reference) [.record .schema]

/-- A record or a reference to one. -/
def orRef (m : Model) : Shape := .either (.record m) [.record .reference]

/-- The types a schema can name. -/
def dataType30 : Shape :=
  .word "DataType" ["string", "number", "integer", "boolean", "array", "object"]

/-- The types a schema can name, null among them. -/
def dataType31 : Shape :=
  .word "DataType" ["null", "string", "number", "integer", "boolean", "array", "object"]

/-- The places a parameter can stand in. -/
def parameterLocation : Shape :=
  .word "ParameterLocation" ["query", "header", "path", "cookie"]

/-- The requests that an operation calls back with. The name leaves out
what a path may be instead. -/
def callback31 : Shape :=
  .named "dict[str,union[PathItem,...]]" (.mapping (orRef .pathItem))

/-- The fields of the records that both versions share. -/
def sharedFields : Model → List Field
  | .contact =>
    [may "name" .text, may "url" .text, may "email" .text]
  | .server =>
    [need "url" .text, may "description" .text,
     may "variables" (.mapping (.record .serverVariable))]
  | .serverVariable =>
    [may "enum" (.list .text), need "default" .text, may "description" .text]
  | .pathItem =>
    [also "ref" (may "$ref" .text), may "summary" .text, may "description" .text,
     may "get" (.record .operation), may "put" (.record .operation),
     may "post" (.record .operation), may "delete" (.record .operation),
     may "options" (.record .operation), may "head" (.record .operation),
     may "patch" (.record .operation), may "trace" (.record .operation),
     may "servers" (.list (.record .server)), may "parameters" (.list (orRef .parameter))]
  | .externalDocumentation =>
    [may "description" .text, need "url" .text]
  | .parameter =>
    [may "description" .text, plain "required" .truth, plain "deprecated" .truth,
     may "style" .text, may "explode" .truth, also "param_schema" (may "schema" schemaOrRef),
     may "example" .anything, may "examples" (.mapping (orRef .sample)),
     may "content" (.mapping (.record .mediaType)), need "name" .text,
     also "param_in" (need "in" parameterLocation), plain "allowEmptyValue" .truth,
     plain "allowReserved" .truth]
  | .discriminator =>
    [need "propertyName" .text, may "mapping" (.mapping .text)]
  | .xml =>
    [may "name" .text, may "namespace" .text, may "prefix" .text, plain "attribute" .truth,
     plain "wrapped" .truth]
  | .sample =>
    [may "summary" .text, may "description" .text, may "value" .anything,
     may "externalValue" .text]
  | .mediaType =>
    [also "media_type_schema" (may "schema" schemaOrRef), may "example" .anything,
     may "examples" (.mapping (orRef .sample)), may "encoding" (.mapping (.record .encoding))]
  | .encoding =>
    [may "contentType" .text, may "headers" (.mapping (orRef .header)), may "style" .text,
     may "explode" .truth, plain "allowReserved" .truth]
  | .header =>
    [may "description" .text, plain "required" .truth, plain "deprecated" .truth,
     may "style" .text, may "explode" .truth, also "param_schema" (may "schema" schemaOrRef),
     may "example" .anything, may "examples" (.mapping (orRef .sample)),
     may "content" (.mapping (.record .mediaType))]
  | .requestBody =>
    [may "description" .text, need "content" (.mapping (.record .mediaType)),
     plain "required" .truth]
  | .response =>
    [need "description" .text, may "headers" (.mapping (orRef .header)),
     may "content" (.mapping (.record .mediaType)), may "links" (.mapping (orRef .link))]
  | .link =>
    [may "operationRef" .text, may "operationId" .text, may "parameters" (.mapping .anything),
     may "requestBody" .anything, may "description" .text, may "server" (.record .server)]
  | .securityScheme =>
    [need "type" .text, may "description" .text, may "name" .text,
     also "security_scheme_in" (may "in" .text), may "scheme" .text, may "bearerFormat" .text,
     may "flows" (.record .oauthFlows), may "openIdConnectUrl" .text]
  | .oauthFlows =>
    [may "implicit" (.record .oauthFlow), may "password" (.record .oauthFlow),
     may "clientCredentials" (.record .oauthFlow), may "authorizationCode" (.record .oauthFlow)]
  | .tag =>
    [need "name" .text, may "description" .text,
     may "externalDocs" (.record .externalDocumentation)]
  | _ => []

/-- The fields of the records of version three point zero. -/
def fields30 : Model → List Field
  | .openApi =>
    [plain "openapi" (.literal ["3.0.4", "3.0.3", "3.0.2", "3.0.1", "3.0.0"]),
     need "info" (.record .info), plain "servers" (.list (.record .server)),
     need "paths" (.mapping (.record .pathItem)), may "components" (.record .components),
     may "security" (.list (.mapping (.list .text))), may "tags" (.list (.record .tag)),
     may "externalDocs" (.record .externalDocumentation)]
  | .info =>
    [need "title" .text, may "description" .text, may "termsOfService" .text,
     may "contact" (.record .contact), may "license" (.record .license), need "version" .text]
  | .license =>
    [need "name" .text, may "url" .text]
  | .operation =>
    [may "tags" (.list .text), may "summary" .text, may "description" .text,
     may "externalDocs" (.record .externalDocumentation), may "operationId" .text,
     may "parameters" (.list (orRef .parameter)), may "requestBody" (orRef .requestBody),
     need "responses" (.mapping (orRef .response)),
     may "callbacks" (.mapping (.mapping (.record .pathItem))), plain "deprecated" .truth,
     may "security" (.list (.mapping (.list .text))), may "servers" (.list (.record .server))]
  | .reference =>
    [also "ref" (need "$ref" .text)]
  | .schema =>
    [may "title" .text, may "multipleOf" .positive, may "maximum" .number,
     may "exclusiveMaximum" .truth, may "minimum" .number, may "exclusiveMinimum" .truth,
     may "maxLength" .count, may "minLength" .count, may "pattern" .text, may "maxItems" .count,
     may "minItems" .count, may "uniqueItems" .truth, may "maxProperties" .count,
     may "minProperties" .count, may "required" (.nonEmptyList .text),
     may "enum" (.nonEmptyList .anything), may "type" dataType30,
     may "allOf" (.list schemaOrRef), may "oneOf" (.list schemaOrRef),
     may "anyOf" (.list schemaOrRef), also "schema_not" (may "not" schemaOrRef),
     may "items" schemaOrRef, may "properties" (.mapping schemaOrRef),
     may "additionalProperties" (.either .truth [(.record .reference), (.record .schema)]),
     may "description" .text, also "schema_format" (may "format" .text), may "default" .anything,
     may "nullable" .truth, may "discriminator" (.record .discriminator), may "readOnly" .truth,
     may "writeOnly" .truth, may "xml" (.record .xml),
     may "externalDocs" (.record .externalDocumentation), may "example" .anything,
     may "deprecated" .truth]
  | .components =>
    [may "schemas" (.mapping schemaOrRef), may "responses" (.mapping (orRef .response)),
     may "parameters" (.mapping (orRef .parameter)), may "examples" (.mapping (orRef .sample)),
     may "requestBodies" (.mapping (orRef .requestBody)), may "headers" (.mapping (orRef .header)),
     may "securitySchemes" (.mapping (orRef .securityScheme)), may "links" (.mapping (orRef .link)),
     may "callbacks" (.mapping (.either (.mapping (.record .pathItem)) [(.record .reference)]))]
  | .oauthFlow =>
    [may "authorizationUrl" .text, may "tokenUrl" .text, may "refreshUrl" .text,
     need "scopes" (.mapping .text)]
  | model => sharedFields model

/-- The fields of the records of version three point one. -/
def fields31 : Model → List Field
  | .openApi =>
    [plain "openapi" (.literal ["3.1.2", "3.1.1", "3.1.0"]), need "info" (.record .info),
     may "jsonSchemaDialect" .text, plain "servers" (.list (.record .server)),
     may "paths" (.mapping (.record .pathItem)), may "webhooks" (.mapping (orRef .pathItem)),
     may "components" (.record .components), may "security" (.list (.mapping (.list .text))),
     may "tags" (.list (.record .tag)), may "externalDocs" (.record .externalDocumentation)]
  | .info =>
    [need "title" .text, may "summary" .text, may "description" .text,
     may "termsOfService" .text, may "contact" (.record .contact),
     may "license" (.record .license), need "version" .text]
  | .license =>
    [need "name" .text, may "identifier" .text, may "url" .text]
  | .operation =>
    [may "tags" (.list .text), may "summary" .text, may "description" .text,
     may "externalDocs" (.record .externalDocumentation), may "operationId" .text,
     may "parameters" (.list (orRef .parameter)), may "requestBody" (orRef .requestBody),
     may "responses" (.mapping (orRef .response)),
     may "callbacks" (.mapping (.either callback31 [(.record .reference)])),
     plain "deprecated" .truth, may "security" (.list (.mapping (.list .text))),
     may "servers" (.list (.record .server))]
  | .reference =>
    [also "ref" (need "$ref" .text), may "summary" .text, may "description" .text]
  | .schema =>
    [may "allOf" (.list schemaOrRef), may "anyOf" (.list schemaOrRef),
     may "oneOf" (.list schemaOrRef), also "schema_not" (may "not" schemaOrRef),
     also "schema_if" (may "if" schemaOrRef), may "then" schemaOrRef,
     also "schema_else" (may "else" schemaOrRef), may "dependentSchemas" (.mapping schemaOrRef),
     may "prefixItems" (.list schemaOrRef), may "items" schemaOrRef, may "contains" schemaOrRef,
     may "properties" (.mapping schemaOrRef), may "patternProperties" (.mapping schemaOrRef),
     may "additionalProperties" (.either (.record .reference) [(.record .schema), .truth]),
     may "propertyNames" schemaOrRef, may "unevaluatedItems" schemaOrRef,
     may "unevaluatedProperties" schemaOrRef,
     may "type" (.either dataType31 [(.list dataType31)]), may "enum" (.nonEmptyList .anything),
     may "const" .anything, may "multipleOf" .positive, may "maximum" .number,
     may "exclusiveMaximum" .number, may "minimum" .number, may "exclusiveMinimum" .number,
     may "maxLength" .count, may "minLength" .count, may "pattern" .text, may "maxItems" .count,
     may "minItems" .count, may "uniqueItems" .truth, may "maxContains" .count,
     may "minContains" .count, may "maxProperties" .count, may "minProperties" .count,
     may "required" (.list .text), may "dependentRequired" (.mapping (.list .text)),
     also "schema_format" (may "format" .text), may "contentEncoding" .text,
     may "contentMediaType" .text, may "contentSchema" schemaOrRef, may "title" .text,
     may "description" .text, may "default" .anything, may "deprecated" .truth,
     may "readOnly" .truth, may "writeOnly" .truth, may "examples" (.list .anything),
     may "discriminator" (.record .discriminator), may "xml" (.record .xml),
     may "externalDocs" (.record .externalDocumentation), may "example" .anything]
  | .components =>
    [may "schemas" (.mapping (.record .schema)), may "responses" (.mapping (orRef .response)),
     may "parameters" (.mapping (orRef .parameter)), may "examples" (.mapping (orRef .sample)),
     may "requestBodies" (.mapping (orRef .requestBody)), may "headers" (.mapping (orRef .header)),
     may "securitySchemes" (.mapping (orRef .securityScheme)), may "links" (.mapping (orRef .link)),
     may "callbacks" (.mapping (.either (.mapping (orRef .pathItem)) [(.record .reference)])),
     may "pathItems" (.mapping (orRef .pathItem))]
  | .oauthFlow =>
    [may "authorizationUrl" .text, may "tokenUrl" .text, may "refreshUrl" .text,
     may "scopes" (.mapping .text)]
  | model => sharedFields model

/-- The fields of a record. -/
def fields : Version → Model → List Field
  | .v30 => fields30
  | .v31 => fields31

end OpenApi

end ApiMock
