import ApiMock.Failure
/-!
# Yaml — tokens

What a text is cut into: the marks of documents and collections, names,
tags and scalars. Where lines are indented, the start and the end of a
block collection are tokens without a text of their own. Cutting may
fail; the failure then stands as the last token, so that it comes up when
the tokens before it were used.
-/

namespace ApiMock

namespace Yaml

/-- An instruction in front of a document. -/
inductive Directive where
  | version (major : Nat)
  | handle (name expansion : String)
  | other
  deriving Repr

/-- A tag as it is written: the handle, if there is one, and the rest. -/
structure WrittenTag where
  handle : Option String
  suffix : String
  deriving Repr

/-- A token. -/
inductive Token where
  | directive (d : Directive)
  | documentStart
  | documentEnd
  | textEnd
  | blockSequenceStart
  | blockMappingStart
  | blockEnd
  | flowSequenceStart
  | flowSequenceEnd
  | flowMappingStart
  | flowMappingEnd
  | flowEntry
  | blockEntry
  | key
  | value
  | alias (name : String)
  | anchor (name : String)
  | tag (t : WrittenTag)
  | scalar (text : String) (isPlain : Bool)
  | broken (failure : Failure)
  deriving Repr

end Yaml

end ApiMock
