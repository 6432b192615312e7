import ApiMock.Data.Basic
import ApiMock.Text.Utf8
import ApiMock.Yaml.Node
import ApiMock.Yaml.Numeral
/-!
# Yaml — scalars

The scalar that a node stands for by its tag, if it stands for one. A
node whose tag wants a scalar must be one; a mapping stands for the scalar
under its value key.
-/

namespace ApiMock

namespace Yaml

/-- The words for truth values, in lower case. -/
def truthValues : List (String × Bool) :=
  [("yes", true), ("no", false), ("true", true), ("false", false), ("on", true), ("off", false)]

/-- The truth value of a word. -/
def truth (word : String) : Except Failure Bool :=
  match truthValues.lookup (String.ofList (word.toList.map Char.toLower)) with
  | some b => .ok b
  | none => .error .missingEntry

/-- The bytes that a text writes in base64. -/
def bytes (s : String) : Except Failure (List UInt8) :=
  if s.toList.all (·.toNat < 128) then
    match Text.Base64.read s.toList with
    | some b => .ok b
    | none => .error .notYaml
  else .error .notYaml

namespace Graph

/-- The value under the first value key of a mapping. -/
def underValueKey? (g : Graph) (es : List NodeEntry) : Option NodeId :=
  (es.find? fun e => g.tag e.1 = .value).map Prod.snd

/-- The text of a node, going down value keys for at most so many steps. -/
def textWithin (g : Graph) : Nat → NodeId → Except Failure String
  | 0, _ => .error .endless
  | steps + 1, n =>
    match g.content n with
    | .scalar s => .ok s
    | .sequence _ => .error .notYaml
    | .mapping es =>
      match g.underValueKey? es with
      | some value => g.textWithin steps value
      | none => .error .notYaml

/-- The text of a node that stands for a scalar. Going down value keys
passes each node once, or never ends. -/
def text (g : Graph) (n : NodeId) : Except Failure String :=
  g.textWithin (g.size + 1) n

/-- The day or point in time that a node writes. A mapping has no written
form of its own. -/
def moment (g : Graph) (n : NodeId) : Except Failure Scalar := do
  let _ ← g.text n
  match g.content n with
  | .scalar s =>
    match Moment.ofText? (Tag.withoutLineFeed s.toList) with
    | some m => m.value
    | none => throw .notText
  | _ => throw .entriesNotText

/-- The scalar that a node stands for; none if it stands for a
collection. -/
def scalar? (g : Graph) (n : NodeId) : Except Failure (Option Scalar) :=
  match g.tag n with
  | .null => do
    let _ ← g.text n
    return some .null
  | .bool => do return some (.bool (← truth (← g.text n)))
  | .int => do return some (.int (← Numeral.int (← g.text n)))
  | .float => do return some (.float (← Numeral.float (n + 1) (← g.text n)))
  | .binary => do return some (.bytes (← bytes (← g.text n)))
  | .timestamp => some <$> g.moment n
  | .str => do return some (.str (← g.text n))
  | .seq | .map | .set | .omap | .pairs => .ok none
  | .merge | .value | .other => .error .notYaml

end Graph

end Yaml

end ApiMock
