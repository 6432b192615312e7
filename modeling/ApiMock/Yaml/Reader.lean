import ApiMock.Failure
import ApiMock.Yaml.Node
import ApiMock.Yaml.Token
/-!
# Yaml — reading nodes

The nodes of a document are read off its tokens, one grammar rule a
function. A collection has its number before its parts are read, so an
alias among them can name it; a text holds at most one document.
-/

namespace ApiMock

namespace Yaml

/-- The state of reading: the tokens left, what handles stand for, the
nodes so far and the anchors on them. -/
structure Reader where
  tokens : List Token
  handles : List (String × String)
  anchors : List (String × NodeId)
  graph : Graph

/-- A step of reading. -/
abbrev Reading (α : Type) := StateT Reader (Except Failure) α

namespace Reader

/-- The next token. A failure that stands for it comes up. -/
def peek : Reading Token := do
  match (← get).tokens with
  | .broken f :: _ => throw f
  | t :: _ => return t
  | [] => return .textEnd

/-- Passes the next token over. -/
def advance : Reading Unit :=
  modify fun r => { r with tokens := r.tokens.tail }

/-- What the handles stand for that need no directive. -/
def standardHandles : List (String × String) :=
  [("!", "!"), ("!!", Tag.standard)]

/-- The full name of a tag. -/
def tagText (t : WrittenTag) : Reading String := do
  match t.handle with
  | none => return t.suffix
  | some h =>
    match (← get).handles.lookup h with
    | some expansion => return expansion ++ t.suffix
    | none => throw .notYaml

/-- What is said about a node in front of it. -/
structure Properties where
  anchor : Option String
  tag : Option String

/-- A tag, if one stands here. -/
def writtenTag? : Reading (Option WrittenTag) := do
  match ← peek with
  | .tag t =>
    advance
    return some t
  | _ => return none

/-- An anchor, if one stands here. -/
def anchor? : Reading (Option String) := do
  match ← peek with
  | .anchor n =>
    advance
    return some n
  | _ => return none

/-- Anchor and tag in either order, each at most once. -/
def properties : Reading Properties := do
  match ← anchor? with
  | some n =>
    let t ← writtenTag?
    return ⟨some n, ← t.mapM tagText⟩
  | none =>
    match ← writtenTag? with
    | none => return ⟨none, none⟩
    | some t =>
      let n ← anchor?
      return ⟨n, some (← tagText t)⟩

/-- The tag of a scalar. Its form counts if nothing is said about it:
neither quotes nor a tag, or the tag that leaves it open. -/
def scalarTag (tag : Option String) (isPlain : Bool) (text : String) : Tag :=
  match tag with
  | none => if isPlain then Tag.ofForm text else .str
  | some "!" => Tag.ofForm text
  | some t => Tag.ofText t

/-- The tag of a collection. -/
def collectionTag (tag : Option String) (usual : Tag) : Tag :=
  match tag with
  | none => usual
  | some "!" => usual
  | some t => Tag.ofText t

/-- The node that an anchor names. -/
def aliased (name : String) : Reading NodeId := do
  match (← get).anchors.lookup name with
  | some n => return n
  | none => throw .notYaml

/-- Adds a node without an anchor. -/
def addPlain (node : Node) : Reading NodeId :=
  modifyGet fun r => (r.graph.size, { r with graph := r.graph.add node })

/-- Adds the node that stands where nothing is written. -/
def addEmpty : Reading NodeId :=
  addPlain .empty

/-- Adds a node; no two nodes may have the same anchor. -/
def addNode (anchor : Option String) (node : Node) : Reading NodeId := do
  match anchor with
  | none => addPlain node
  | some name =>
    if ((← get).anchors.lookup name).isSome then throw .notYaml
    let n ← addPlain node
    modify fun r => { r with anchors := (name, n) :: r.anchors }
    return n

/-- Adds a sequence and then reads its items. -/
def addSequence (p : Properties) (items : Reading (List NodeId)) : Reading NodeId := do
  let n ← addNode p.anchor ⟨collectionTag p.tag .seq, .sequence []⟩
  let items ← items
  modify fun r => { r with graph := r.graph.withContent n (.sequence items) }
  return n

/-- Adds a mapping and then reads its entries. -/
def addMapping (p : Properties) (entries : Reading (List NodeEntry)) : Reading NodeId := do
  let n ← addNode p.anchor ⟨collectionTag p.tag .map, .mapping []⟩
  let entries ← entries
  modify fun r => { r with graph := r.graph.withContent n (.mapping entries) }
  return n

/-- Adds a scalar. -/
def addScalar (p : Properties) (isPlain : Bool) (text : String) : Reading NodeId :=
  addNode p.anchor ⟨scalarTag p.tag isPlain text, .scalar text⟩

/-- Where a node stands, which decides what may start it. -/
inductive Place where
  | inBlock
  | inBlockMapping
  | inFlow
  deriving DecidableEq

mutual
/-- A node. -/
def node : Nat → Place → Reading NodeId
  | 0, _ => throw .endless
  | fuel + 1, place => do
    match ← peek with
    | .alias n =>
      advance
      aliased n
    | _ =>
      let p ← properties
      content fuel place p

/-- A node behind its properties. -/
def content : Nat → Place → Properties → Reading NodeId
  | 0, _, _ => throw .endless
  | fuel + 1, place, p => do
    match ← peek with
    | .scalar text isPlain =>
      advance
      addScalar p isPlain text
    | .flowSequenceStart =>
      advance
      addSequence p (flowSequence fuel true)
    | .flowMappingStart =>
      advance
      addMapping p (flowMapping fuel true)
    | .blockSequenceStart =>
      if place = .inFlow then emptyContent p
      else
        advance
        addSequence p (blockSequence fuel)
    | .blockMappingStart =>
      if place = .inFlow then emptyContent p
      else
        advance
        addMapping p (blockMapping fuel)
    | .blockEntry =>
      if place = .inBlockMapping then addSequence p (flatSequence fuel) else emptyContent p
    | _ => emptyContent p

/-- Nothing behind properties. They alone make a node. -/
def emptyContent (p : Properties) : Reading NodeId := do
  if p.anchor.isNone && p.tag.isNone then throw .notYaml
  addScalar p p.tag.isNone ""

/-- The entries of a sequence in block style. -/
def blockSequence : Nat → Reading (List NodeId)
  | 0 => throw .endless
  | fuel + 1 => do
    match ← peek with
    | .blockEntry =>
      advance
      let item ← match ← peek with
        | .blockEntry => addEmpty
        | .blockEnd => addEmpty
        | _ => node fuel .inBlock
      return item :: (← blockSequence fuel)
    | .blockEnd =>
      advance
      return []
    | _ => throw .notYaml

/-- The entries of a sequence that is indented like the mapping around
it. It ends where no further entry comes. -/
def flatSequence : Nat → Reading (List NodeId)
  | 0 => throw .endless
  | fuel + 1 => do
    match ← peek with
    | .blockEntry =>
      advance
      let item ← match ← peek with
        | .blockEntry => addEmpty
        | .key => addEmpty
        | .value => addEmpty
        | .blockEnd => addEmpty
        | _ => node fuel .inBlock
      return item :: (← flatSequence fuel)
    | _ => return []

/-- The entries of a mapping in block style. -/
def blockMapping : Nat → Reading (List NodeEntry)
  | 0 => throw .endless
  | fuel + 1 => do
    match ← peek with
    | .key =>
      advance
      let key ← blockPart fuel
      let value ← match ← peek with
        | .value => do
          advance
          blockPart fuel
        | _ => addEmpty
      return (key, value) :: (← blockMapping fuel)
    | .blockEnd =>
      advance
      return []
    | _ => throw .notYaml

/-- A key or a value in block style, which may be left out. -/
def blockPart : Nat → Reading NodeId
  | 0 => throw .endless
  | fuel + 1 => do
    match ← peek with
    | .key => addEmpty
    | .value => addEmpty
    | .blockEnd => addEmpty
    | _ => node fuel .inBlockMapping

/-- The entries of a sequence in brackets. Commas stand between them, and
one may stand at the end. -/
def flowSequence : Nat → Bool → Reading (List NodeId)
  | 0, _ => throw .endless
  | fuel + 1, isFirst => do
    match ← peek with
    | .flowSequenceEnd =>
      advance
      return []
    | t =>
      if !isFirst then
        match t with
        | .flowEntry => advance
        | _ => throw .notYaml
      match ← peek with
      | .flowSequenceEnd =>
        advance
        return []
      | .key =>
        advance
        let key ← flowPart fuel
        let value ← flowValue fuel
        let item ← addPlain ⟨.map, .mapping [(key, value)]⟩
        return item :: (← flowSequence fuel false)
      | _ =>
        let item ← node fuel .inFlow
        return item :: (← flowSequence fuel false)

/-- The entries of a mapping in braces. A key may stand without a value. -/
def flowMapping : Nat → Bool → Reading (List NodeEntry)
  | 0, _ => throw .endless
  | fuel + 1, isFirst => do
    match ← peek with
    | .flowMappingEnd =>
      advance
      return []
    | t =>
      if !isFirst then
        match t with
        | .flowEntry => advance
        | _ => throw .notYaml
      match ← peek with
      | .flowMappingEnd =>
        advance
        return []
      | .key =>
        advance
        let key ← flowPart fuel
        let value ← flowValue fuel
        return (key, value) :: (← flowMapping fuel false)
      | _ =>
        let key ← node fuel .inFlow
        let value ← addEmpty
        return (key, value) :: (← flowMapping fuel false)

/-- The value behind a key in brackets, which may be left out. -/
def flowValue : Nat → Reading NodeId
  | 0 => throw .endless
  | fuel + 1 => do
    match ← peek with
    | .value =>
      advance
      flowPart fuel
    | _ => addEmpty

/-- A key or a value in brackets, which may be left out. -/
def flowPart : Nat → Reading NodeId
  | 0 => throw .endless
  | fuel + 1 => do
    match ← peek with
    | .value => addEmpty
    | .flowEntry => addEmpty
    | .flowSequenceEnd => addEmpty
    | .flowMappingEnd => addEmpty
    | _ => node fuel .inFlow
end

end Reader

end Yaml

end ApiMock
