import ApiMock.Data.Basic
/-!
# Schema — nodes

A schema as a tree. A reference names the definition it points at and is
followed only when types are resolved, so a cyclic set of definitions is
a finite set of finite trees.

Each form has the parts that make sense for it. `declared` is the type a
schema names, which need not agree with its form: a schema with `items`
is an array whatever it declares. A description is a text, except that a
combined schema hands its own description down as it is.
-/

namespace ApiMock

/-- A node of a schema. -/
inductive Schema where
  /-- Nothing is known of the values. -/
  | unknown (description : Option Data)
  /-- The definition of this name. -/
  | reference (target : String) (description : Option Data)
  /-- A value of a named type. -/
  | primitive (declared : String) (format : Option String) (description : Option Data)
  /-- A list; without `items` nothing is known of its elements. -/
  | array (declared format : Option String) (description : Option Data) (items : Option Schema)
  /-- An object with known properties, of which `required` must be there. -/
  | object (declared format : Option String) (description : Option Data)
      (properties : List (String × Schema)) (required : List String)
  /-- One of the listed values. -/
  | enumeration (declared format : Option String) (description : Option Data)
      (values : List Data)
  deriving Inhabited

namespace Schema

/-- The forms a node can have. -/
inductive Kind where
  | primitive
  | object
  | array
  | enumeration
  | reference
  | unknown
  deriving DecidableEq, Repr

/-- The word for a form. -/
def Kind.label : Kind → String
  | primitive => "primitive"
  | object => "object"
  | array => "array"
  | enumeration => "enum"
  | reference => "reference"
  | unknown => "unknown"

/-- The form of a node. -/
def kind : Schema → Kind
  | unknown .. => .unknown
  | reference .. => .reference
  | primitive .. => .primitive
  | array .. => .array
  | object .. => .object
  | enumeration .. => .enumeration

/-- The type a node declares. -/
def declared? : Schema → Option String
  | primitive t _ _ => some t
  | array t _ _ _ | object t _ _ _ _ | enumeration t _ _ _ => t
  | _ => none

/-- The format a node declares. -/
def format? : Schema → Option String
  | primitive _ f _ | array _ f _ _ | object _ f _ _ _ | enumeration _ f _ _ => f
  | _ => none

/-- The description of a node. -/
def description? : Schema → Option Data
  | unknown d | reference _ d | primitive _ _ d | array _ _ d _ | object _ _ d _ _
  | enumeration _ _ d _ => d

/-- The node with another description. -/
def withDescription (d : Option Data) : Schema → Schema
  | unknown _ => unknown d
  | reference t _ => reference t d
  | primitive t f _ => primitive t f d
  | array t f _ i => array t f d i
  | object t f _ ps rs => object t f d ps rs
  | enumeration t f _ vs => enumeration t f d vs

/-- The properties of an object. -/
def properties : Schema → List (String × Schema)
  | object _ _ _ ps _ => ps
  | _ => []

/-- The properties an object must have. -/
def required : Schema → List String
  | object _ _ _ _ rs => rs
  | _ => []

/-- The schema of the elements of an array. -/
def items? : Schema → Option Schema
  | array _ _ _ i => i
  | _ => none

/-- The values of an enumeration. -/
def values : Schema → List Data
  | enumeration _ _ _ vs => vs
  | _ => []

/-- The definition a reference names. -/
def target? : Schema → Option String
  | reference t _ => some t
  | _ => none

end Schema

/-- The definitions of a document, by name. -/
abbrev Definitions := List (String × Schema)

end ApiMock
