import ApiMock.Log
import ApiMock.OpenApi.Models
/-!
# OpenApi — accepting a document

A document is accepted if it is a mapping, names a supported version and
fits the records of that version. The accepted document is the given one
with texts for keys.
-/

namespace ApiMock

namespace OpenApi

/-- The version a document names, as a text. -/
def versionText (document : Data) : Except Failure String :=
  ((document.field? "openapi").getD (.str "")).plainText

/-- The supported version that a text names. -/
def Version.ofText? (text : String) : Option Version :=
  match text.toList.take 3 with
  | ['3', '.', '0'] => some .v30
  | ['3', '.', '1'] => some .v31
  | _ => none

/-- Whether a document fits the records of a version. -/
def fits (v : Version) (document : Data) : Except Misfit Unit :=
  (Shape.record .openApi).check (fields v) document

/-- The version of a document with texts for keys, or why it has none. -/
def versionOf (document : Data) : Except Failure Version := do
  let text ← versionText document
  match Version.ofText? text, document.field? "swagger" with
  | some v, _ => return v
  | none, some old => throw (.spec (.oldFormat (← old.plainText)))
  | none, none => throw (.spec (.unknownVersion (Text.quoted text)))

/-- Accepts a document, or says why not. -/
def validate (document : Data) : Logged Data := do
  match document with
  | .map _ =>
    let document ← (document.withTextKeys : Except Failure Data)
    let version ← (versionOf document : Except Failure Version)
    match fits version document with
    | .error m =>
      report .debug .document "OpenAPI validation errors: <errors>"
      throw (.spec (.misshapen m.fault))
    | .ok () =>
      let version ← (versionText document : Except Failure String)
      report .debug .document s!"Validated OpenAPI {version} document"
      return document
  | _ => throw (.spec .rootNotObject)

end OpenApi

end ApiMock
