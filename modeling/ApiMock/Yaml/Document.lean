import ApiMock.Yaml.Lexer
import ApiMock.Yaml.Reader
/-!
# Yaml — the document of a text

Reads the one document that a text may hold: directives, a mark that may
be left out, and the root node. Behind it only the end of the text may
come.
-/

namespace ApiMock

namespace Yaml

namespace Reader

/-- The meanings of handles, with those that need no directive. -/
def withStandardHandles (handles : List (String × String)) : List (String × String) :=
  handles ++ standardHandles

/-- Reads directives: one version at most, of the first major one, and one
meaning for a handle at most. -/
def directives : Nat → Bool → List (String × String) → Reading (List (String × String))
  | 0, _, _ => throw .endless
  | fuel + 1, hasVersion, handles => do
    match ← peek with
    | .directive d =>
      advance
      match d with
      | .version major =>
        if hasVersion || major ≠ 1 then throw .notYaml
        directives fuel true handles
      | .handle name expansion =>
        if (handles.lookup name).isSome then throw .notYaml
        directives fuel hasVersion (handles ++ [(name, expansion)])
      | .other => directives fuel hasVersion handles
    | _ => return withStandardHandles handles

/-- Passes over marks of the end of a document. -/
def documentEnds : Nat → Reading Unit
  | 0 => throw .endless
  | fuel + 1 => do
    match ← peek with
    | .documentEnd =>
      advance
      documentEnds fuel
    | _ => return

/-- The root of a document behind its mark. It may be left out. -/
def markedRoot (fuel : Nat) : Reading NodeId := do
  match ← peek with
  | .directive _ => addEmpty
  | .documentStart => addEmpty
  | .documentEnd => addEmpty
  | .textEnd => addEmpty
  | _ => node fuel .inBlock

/-- A document that starts with directives or a mark. -/
def markedDocument (fuel : Nat) : Reading NodeId := do
  let handles ← directives fuel false []
  match ← peek with
  | .documentStart =>
    advance
    modify fun r => { r with handles := handles }
    markedRoot fuel
  | _ => throw .notYaml

/-- The first document of a text, if there is one. -/
def document (fuel : Nat) : Reading (Option NodeId) := do
  match ← peek with
  | .textEnd => return none
  | .directive _ => some <$> markedDocument fuel
  | .documentStart => some <$> markedDocument fuel
  | _ =>
    modify fun r => { r with handles := standardHandles }
    some <$> node fuel .inBlock

/-- The only document of a text, if there is one. -/
def onlyDocument (fuel : Nat) : Reading (Option NodeId) := do
  match ← document fuel with
  | none => return none
  | some root =>
    documentEnds fuel
    match ← peek with
    | .textEnd => return some root
    | _ =>
      let _ ← directives fuel false []
      let _ ← peek
      throw .notYaml

end Reader

/-- The nodes of a document, and which of them is the root. -/
structure Document where
  graph : Graph
  root : NodeId

/-- The only document of a text, if there is one. -/
def Document.ofText? (text : List Char) : Except Failure (Option Document) := do
  let ts := tokens text
  let (root, r) ← (Reader.onlyDocument (4 * ts.length + 8)).run ⟨ts, [], [], ⟨#[]⟩⟩
  return root.map fun n => ⟨r.graph, n⟩

end Yaml

end ApiMock
