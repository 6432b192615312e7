import ApiMock.Text.Split
import ApiMock.TypeScript.TypeExpr
/-!
# TypeScript — declarations

An exported declaration of a named type: an interface with a line for
every property, or an alias. Descriptions become comments on one line.
Their words are joined by single blanks, and the characters that would
close the comment early are kept apart.
-/

namespace ApiMock

namespace TypeScript

/-- The text of a description inside a comment. -/
def commentText (description : List Char) : List Char :=
  Text.replacePair '*' '/' ['*', '\\', '/'] (Text.joinWith [' '] (Text.words description))

/-- A byte that stands between words. -/
def isBlankByte (b : UInt8) : Bool :=
  b = 0x20 || (0x09 ≤ b && b ≤ 0x0d)

/-- The text of the comment for a description, if it has one. Only a text
has words that can be joined; bytes without words make an empty comment. -/
def commentOf (description : Option Data) : Except Failure (Option String) :=
  match description with
  | none => .ok none
  | some d =>
    if d.truthy then
      match d with
      | .scalar (.bytes b) => if b.all isBlankByte then .ok (some "") else .error .bytesNotText
      | d => do return some (String.ofList (commentText (← d.text).toList))
    else .ok none

/-- A comment on a line of its own, or nothing. -/
def commentLine (indent : String) : Option String → String
  | none => ""
  | some text => indent ++ "/** " ++ text ++ " */\n"

/-- A property of an interface. -/
structure Member where
  comment : Option String
  key : PropertyKey
  type : TypeExpr

/-- What a declared name stands for. -/
inductive Body where
  | interface (members : List Member)
  | alias (type : TypeExpr)

/-- An exported type. -/
structure Declaration where
  name : String
  comment : Option String
  body : Body

/-- A property on a line of its own, behind its comment. -/
def Member.render (m : Member) : String :=
  commentLine "  " m.comment ++ "  " ++ m.key.render ++ ": " ++ m.type.render ++ ";\n"

/-- The text of a declaration, without a line feed at its end. -/
def Declaration.render (d : Declaration) : String :=
  commentLine "" d.comment ++
    match d.body with
    | .interface members =>
      "export interface " ++ d.name ++ " \x7b\n" ++ String.join (members.map Member.render) ++ "\x7d"
    | .alias type => "export type " ++ d.name ++ " = " ++ type.render ++ ";"

end TypeScript

end ApiMock
