import ApiMock.Failure
import ApiMock.Yaml.Node
/-!
# Yaml — merging

A mapping is freed of its merge keys before it is used: the entries of the
mappings they name come in front, of several named together the last one's
first, and behind them the entries of the mapping itself. What a merge
key names is freed first. The mapping stays free of merge keys from then
on, wherever it stands.

Freeing takes one merge key away from the graph in every step and puts
none into it, so a mapping may also name itself.
-/

namespace ApiMock

namespace Yaml

namespace Graph

/-- The key of an entry is a merge key. -/
def isMerge (g : Graph) (e : NodeEntry) : Bool :=
  g.tag e.1 = .merge

/-- The number of merge keys. -/
def mergeCount (g : Graph) : Nat :=
  g.nodes.foldl (fun count node =>
    match node.content with
    | .mapping es => count + es.countP g.isMerge
    | _ => count) 0

/-- A node is a mapping. -/
def isMapping (g : Graph) (n : NodeId) : Bool :=
  match g.content n with
  | .mapping _ => true
  | _ => false

/-- The graph in which a key with a meaning of its own is a text. -/
def withPlainKey (g : Graph) (e : NodeEntry) : Graph :=
  if g.tag e.1 = .value then g.withTag e.1 .str else g

/-- The graph in which a mapping without merge keys has `inherited` in
front of its entries, and only texts for keys that look like texts. -/
def settled (g : Graph) (n : NodeId) (inherited : List NodeEntry) : Graph :=
  let es := g.entries n
  let g := es.foldl withPlainKey g
  if inherited.isEmpty then g else g.withContent n (.mapping (inherited ++ es))

/-- Frees some mappings one after the other, and gives their entries, the
last one's first. -/
def freedEntries (free : Graph → NodeId → Except Failure Graph) :
    List NodeId → Graph → Except Failure (List NodeEntry × Graph)
  | [], g => .ok ([], g)
  | n :: rest, g => do
    if !g.isMapping n then throw .notYaml
    let g ← free g n
    let es := g.entries n
    let (others, g) ← freedEntries free rest g
    return (others ++ es, g)

/-- The entries that the value of a merge key brings in. -/
def inherited (free : Graph → NodeId → Except Failure Graph) (g : Graph) (value : NodeId) :
    Except Failure (List NodeEntry × Graph) :=
  match g.content value with
  | .mapping _ => freedEntries free [value] g
  | .sequence items => freedEntries free items g
  | .scalar _ => .error .notYaml

/-- Frees a mapping of the merge keys from the place `start` on. What
those before it brought in is `gathered`. -/
def freeFrom : Nat → NodeId → Nat → List NodeEntry → Graph → Except Failure Graph
  | 0, _, _, _, _ => .error .endless
  | fuel + 1, n, start, gathered, g =>
    let es := g.entries n
    let skipped := (es.drop start).takeWhile fun e => !g.isMerge e
    let place := start + skipped.length
    match es[place]? with
    | none => .ok (g.settled n gathered)
    | some e => do
      let g := g.withContent n (.mapping (es.eraseIdx place))
      let (more, g) ← inherited (fun g m => freeFrom fuel m 0 [] g) g e.2
      freeFrom fuel n place (gathered ++ more) g

/-- Frees a mapping of its merge keys. -/
def free (g : Graph) (n : NodeId) : Except Failure Graph :=
  if (g.entries n).any fun e => g.isMerge e || g.tag e.1 = .value then
    freeFrom (g.mergeCount + 1) n 0 [] g
  else .ok g

end Graph

end Yaml

end ApiMock
