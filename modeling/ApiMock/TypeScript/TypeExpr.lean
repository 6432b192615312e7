import ApiMock.Json.Encode
import ApiMock.Json.Printer
import ApiMock.Naming
import ApiMock.Number.Layout
import ApiMock.Schema.Basic
/-!
# TypeScript — types

Two kinds of token carry text from a document into a type: property keys,
written plainly if they are identifiers and as JSON texts otherwise, and
string literals between single quotes.

The types that generated files are written in are trees with a text. The
brackets of an array bind tighter than the bars of a union, so the type
of the elements is put in parentheses whenever a bar shows in it.
-/

namespace ApiMock

namespace TypeScript

/-! ## Tokens from a document -/

/-- A property name as it stands in an object type. -/
def keyToken (name : String) : String :=
  if Naming.isIdentifier name then name else Json.quote name

/-- The key of a property, marked when the property may be missing. -/
def propertyKey (name : String) (required : Bool) : String :=
  if required then keyToken name else keyToken name ++ "?"

/-- A text between single quotes, the quote and the backslash escaped. -/
def stringLiteral (s : String) : String :=
  String.ofList ('\'' :: s.toList.flatMap (fun c =>
    if c = '\\' then ['\\', '\\'] else if c = '\'' then ['\\', '\''] else [c]) ++ ['\''])

/-! ## Types -/

/-- A value used as a type. -/
inductive Literal where
  | text (s : String)
  | null
  | bool (b : Bool)
  | int (n : Int)
  | float (x : Binary64)
  /-- An array or an object, as its JSON text. -/
  | structured (j : Json)
  deriving Repr

/-- The types with a keyword of their own. -/
inductive Keyword where
  | string
  | number
  | boolean
  deriving DecidableEq, Repr

/-- A property of an object type. -/
structure PropertyKey where
  name : String
  required : Bool
  deriving DecidableEq, Repr

/-- A type. -/
inductive TypeExpr where
  | any
  | keyword (k : Keyword)
  /-- A declared type, by its canonical name. -/
  | named (name : String)
  | array (element : TypeExpr)
  | union (members : List Literal)
  | object (members : List (PropertyKey × TypeExpr))
  deriving Inhabited

namespace Literal

/-- A document value as a type, if it has a text. -/
def ofData : Data → Except Failure Literal
  | .scalar (.str s) => .ok (text s)
  | .scalar .null => .ok null
  | .scalar (.bool b) => .ok (bool b)
  | .scalar (.int n) => if Number.hasText n then .ok (int n) else .error tooManyDigits
  | .scalar (.float x) => .ok (float x)
  | d => structured <$> Json.ofData false d

/-- The text of a literal type. -/
def render : Literal → String
  | text s => stringLiteral s
  | null => "null"
  | bool b => if b then "true" else "false"
  | int n => toString n
  | float x => Number.plainText x
  | structured j => j.render

end Literal

namespace Keyword

/-- The text of a keyword. -/
def render : Keyword → String
  | string => "string"
  | number => "number"
  | boolean => "boolean"

/-- The keyword for a type that a schema declares. -/
def ofDeclared? : String → Option Keyword
  | "string" => some string
  | "integer" => some number
  | "number" => some number
  | "boolean" => some boolean
  | _ => none

end Keyword

/-- The key as it stands in an object type. -/
def PropertyKey.render (k : PropertyKey) : String :=
  propertyKey k.name k.required

/-- A bar with blanks around it shows in the text. -/
def showsBar : List Char → Bool
  | ' ' :: '|' :: ' ' :: _ => true
  | _ :: rest => showsBar rest
  | [] => false

/-- The array type of an element's text. -/
def arrayText (element : String) : String :=
  if showsBar element.toList then "(" ++ element ++ ")[]" else element ++ "[]"

namespace TypeExpr

mutual
/-- The text of a type. -/
def render : TypeExpr → String
  | any => "any"
  | keyword k => k.render
  | named name => name
  | array element => arrayText element.render
  | union members => String.intercalate " | " (members.map Literal.render)
  | object [] => "\x7b\x7d"
  | object members => "\x7b " ++ String.intercalate "; " (renderMembers members) ++ " \x7d"

/-- The texts of the members of an object type. -/
def renderMembers : List (PropertyKey × TypeExpr) → List String
  | [] => []
  | (k, t) :: rest => (k.render ++ ": " ++ t.render) :: renderMembers rest
end

/-- The type with a keyword that a declared type stands for; nothing is
known of any other. -/
def ofDeclared (declared : Option String) : TypeExpr :=
  match declared.bind Keyword.ofDeclared? with
  | some k => keyword k
  | none => any

/-- The type of a schema as far as it shows without following references. -/
def ofForm : Schema → TypeExpr
  | .primitive declared _ _ => ofDeclared (some declared)
  | .enumeration declared _ _ _ => ofDeclared declared
  | .array .. => array any
  | _ => any

end TypeExpr

end TypeScript

end ApiMock
