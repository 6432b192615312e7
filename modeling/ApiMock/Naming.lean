import ApiMock.Text.Split
import ApiMock.Text.Case
/-!
# Naming — canonical names

Every emitted name has one canonical form. The words of a name are its
runs of ASCII letters and digits; `pascal` writes them together, each
with a capital. Type names, reference targets and storage groups all use
that form, so names that differ only in case style or punctuation are
the same name. `camel` and `kebab` are derived from it.

Paths are read here too: the placeholders of a path template, the
resource a path ends in, and the function name that a method and a path
give when no name was declared.
-/

namespace ApiMock

namespace Naming

open Text

/-! ## Words -/

/-- The words of a name: its runs of ASCII letters and digits. -/
def wordsOf (cs : List Char) : List (List Char) :=
  runs Char.isAlphanum cs

/-- A word with its first letter in upper case, the rest as written. -/
def capitalize : List Char → List Char
  | [] => []
  | c :: rest => c.toUpper :: rest

/-- A word with its first letter in lower case, the rest as written. -/
def uncapitalize : List Char → List Char
  | [] => []
  | c :: rest => c.toLower :: rest

/-- The words of a text, capitalised and written together. -/
def pascalChars (cs : List Char) : List Char :=
  (wordsOf cs).flatMap capitalize

/-- The canonical name: `user-profile` and `user_profile` are `UserProfile`. -/
def pascal (name : String) : String :=
  String.ofList (pascalChars name.toList)

/-- The canonical name with a small first letter: `userProfile`. -/
def camel (name : String) : String :=
  String.ofList (uncapitalize (pascalChars name.toList))

/-- A new word starts at `current`: after a small letter or digit, or as
the last capital of several when a small letter follows. -/
def startsWord (previous current : Char) (next : Option Char) : Bool :=
  current.isUpper &&
    (previous.isLower || previous.isDigit || (previous.isUpper && next.any Char.isLower))

/-- A hyphen before every new word. -/
def hyphenate : List Char → List Char
  | a :: b :: rest =>
    if startsWord a b rest.head? then a :: '-' :: hyphenate (b :: rest)
    else a :: hyphenate (b :: rest)
  | cs => cs

/-- The canonical name as a file stem: `UserProfile` is `user-profile`. -/
def kebab (name : String) : String :=
  String.ofList ((hyphenate (pascalChars name.toList)).map Char.toLower)

/-- A method name in upper case. -/
def upper (method : String) : String :=
  upperText method

/-- A method name in lower case. -/
def lower (method : String) : String :=
  lowerText method

/-! ## Identifiers -/

/-- A character an identifier may start with. -/
def isIdentifierStart (c : Char) : Bool :=
  c.isAlpha || c = '_' || c = '$'

/-- A character that may stand in an identifier. -/
def isIdentifierPart (c : Char) : Bool :=
  c.isAlphanum || c = '_' || c = '$'

/-- A text without one line feed at its end, if it has one. -/
def dropFinalNewline (cs : List Char) : List Char :=
  if cs.getLast? = some '\n' then cs.dropLast else cs

/-- The characters form an identifier, over their whole length. -/
def isIdentifierChars : List Char → Bool
  | [] => false
  | c :: rest => isIdentifierStart c && rest.all isIdentifierPart

/-- The name may be written without quotes. One line feed after it is
let through. -/
def isIdentifier (name : String) : Bool :=
  isIdentifierChars (dropFinalNewline name.toList)

/-- An argument name for any parameter name: `pet-id` is `petId`, and a
name that would start with a digit gets an underscore. -/
def identifier (name : String) : String :=
  if isIdentifier name then name
  else if isIdentifier (camel name) then camel name
  else "_" ++ camel name

/-! ## References and groups -/

/-- The group of operations without a usable tag. -/
def defaultGroup : String := "Default"

/-- The definition a reference points at: the last segment of its pointer. -/
def refName (ref : String) : String :=
  String.ofList ((cut '/' (stripEnd (· = '/') ref.toList)).getLast?.getD [])

/-- The storage group of an operation: its first tag in canonical form. -/
def groupKey : List String → String
  | [] => defaultGroup
  | tag :: _ => if (pascal tag).isEmpty then defaultGroup else pascal tag

/-! ## Paths -/

/-- The non-empty segments of a path. -/
def segments (path : List Char) : List (List Char) :=
  (cut '/' path).filter (!·.isEmpty)

/-- A segment that is a placeholder: `{petId}`. -/
def isPlaceholder (segment : List Char) : Bool :=
  segment.head? = some '{' && segment.getLast? = some '}'

/-- The names between braces, in the order of the template. `pending` is
the name read since an open brace; a slash gives it up. -/
def placeholderNames : (pending : Option (List Char)) → List Char → List (List Char)
  | _, [] => []
  | none, c :: rest => placeholderNames (if c = '{' then some [] else none) rest
  | some name, c :: rest =>
    if c = '}' then
      if name.isEmpty then placeholderNames none rest else name :: placeholderNames none rest
    else if c = '/' then placeholderNames none rest
    else placeholderNames (some (name ++ [c])) rest

/-- The distinct placeholder names of a path, in the order of the template. -/
def placeholders (path : String) : List String :=
  ((placeholderNames none path.toList).map String.ofList).eraseDups

/-- The path ends in a placeholder. -/
def hasTrailingPlaceholder (path : String) : Bool :=
  (segments path.toList).getLast?.any isPlaceholder

/-- An operation id made of the method and the letters and digits of the
path; paths that differ only in punctuation share it. -/
def synthesizedId (method path : String) : String :=
  lower method ++ String.ofList (path.toList.filter Char.isAlphanum)

/-- The last segment of a path that does not open with a brace, in
canonical form. -/
def resourceName (path : String) : String :=
  pascal (String.ofList
    (((segments path.toList).filter (·.head? ≠ some '{')).getLast?.getD []))

/-- The function name of an operation: its declared id, or else the
method with the resource the path ends in. -/
def functionName (method path : String) (declaredId : Option String) : String :=
  let derived := lower method ++
    (if (resourceName path).isEmpty then "Resource" else resourceName path)
  match declaredId with
  | none => derived
  | some id => if (camel id).isEmpty then derived else camel id

end Naming

end ApiMock
