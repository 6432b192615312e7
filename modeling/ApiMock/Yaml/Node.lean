import ApiMock.Yaml.Tag
/-!
# Yaml — the nodes of a document

A document is a graph of scalars, sequences and mappings, each with a tag.
Nodes are known by number, so that one node can stand at several places:
an alias stands for the node that its anchor names, also inside of that
node.
-/

namespace ApiMock

namespace Yaml

/-- The number of a node. -/
abbrev NodeId := Nat

/-- A key and a value of a mapping. -/
abbrev NodeEntry := NodeId × NodeId

/-- What a node is made of. -/
inductive Content where
  | scalar (text : String)
  | sequence (items : List NodeId)
  | mapping (entries : List NodeEntry)
  deriving Repr

/-- A node of a document. -/
structure Node where
  tag : Tag
  content : Content
  deriving Repr

/-- The scalar that stands where nothing is written. -/
def Node.empty : Node := ⟨.null, .scalar ""⟩

/-- The nodes of a document by number. -/
structure Graph where
  nodes : Array Node

namespace Graph

/-- A node by its number. -/
def node (g : Graph) (n : NodeId) : Node :=
  g.nodes.getD n .empty

/-- The tag of a node. -/
def tag (g : Graph) (n : NodeId) : Tag :=
  (g.node n).tag

/-- The content of a node. -/
def content (g : Graph) (n : NodeId) : Content :=
  (g.node n).content

/-- The entries of a mapping; other nodes have none. -/
def entries (g : Graph) (n : NodeId) : List NodeEntry :=
  match g.content n with
  | .mapping es => es
  | _ => []

/-- The number of nodes. -/
def size (g : Graph) : Nat := g.nodes.size

/-- A node more; its number is the old size. -/
def add (g : Graph) (node : Node) : Graph :=
  ⟨g.nodes.push node⟩

/-- A node with another content. -/
def withContent (g : Graph) (n : NodeId) (content : Content) : Graph :=
  ⟨g.nodes.modify n fun node => { node with content := content }⟩

/-- A node with another tag. -/
def withTag (g : Graph) (n : NodeId) (tag : Tag) : Graph :=
  ⟨g.nodes.modify n fun node => { node with tag := tag }⟩

end Graph

end Yaml

end ApiMock
