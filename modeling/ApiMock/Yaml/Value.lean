import ApiMock.Entries
import ApiMock.Sorting.Pile
import ApiMock.Yaml.Document
import ApiMock.Yaml.Merge
import ApiMock.Yaml.Scalar
/-!
# Yaml — the value of a document

What the nodes of a document stand for. A scalar is made where it comes
up; a collection is opened there and filled later, in the order in which
collections were opened, so that a collection can stand inside of itself.
The first fault on the way is the one reported.

When all collections are filled, the value of the root is unrolled: a
collection that comes up inside of itself is cut there.

A text is loaded as the value that it writes in YAML 1.1, of which JSON is
nearly a part. It may hold printable characters only, and one document at
most; a text without a document stands for null.
-/

namespace ApiMock

namespace Yaml

/-- What a node was made into. Collections name their parts by number. -/
inductive Made where
  | scalar (s : Scalar)
  /-- A collection that is not filled yet. -/
  | opened
  | list (items : List NodeId)
  | pairs (entries : List NodeEntry)
  | map (entries : List (Scalar × NodeId))
  | set (members : List Scalar)

/-- The state of the making: the nodes as they are by now, what they were
made into, and the opened collections that wait, the last one first. -/
structure Workshop where
  graph : Graph
  made : Array (Option Made)
  waiting : List NodeId

/-- A step of the making. -/
abbrev Making (α : Type) := StateT Workshop (Except Failure) α

/-- The members of a set in the order in which they are listed: whole numbers
ascend, other members stay as they are written. -/
def setMembers (keys : List Scalar) : List Scalar :=
  if keys.all (·.int?.isSome) then Sorting.sort (fun a b => a.int?.getD 0 < b.int?.getD 0) keys
  else keys

namespace Making

/-- Notes what a node was made into. -/
def note (n : NodeId) (m : Made) : Making Unit :=
  modify fun w => { w with made := w.made.setIfInBounds n (some m) }

/-- Makes a node for the first time. -/
def makeNew (n : NodeId) : Making Made := do
  match ← ((← get).graph.scalar? n : Except Failure (Option Scalar)) with
  | some s =>
    note n (.scalar s)
    return .scalar s
  | none =>
    note n .opened
    modify fun w => { w with waiting := n :: w.waiting }
    return .opened

/-- Makes a node, unless it is made already. -/
def make (n : NodeId) : Making Made := do
  match (← get).made[n]? with
  | some (some m) => return m
  | _ => makeNew n

/-- Makes the key of an entry, which must be a scalar. -/
def makeKey (n : NodeId) : Making Scalar := do
  match ← make n with
  | .scalar s => return s
  | _ => throw .notYaml

/-- Makes key and value of an entry of a mapping. -/
def makeEntry (e : NodeEntry) : Making (Scalar × NodeId) := do
  let key ← makeKey e.1
  let _ ← make e.2
  return (key, e.2)

/-- Makes the entries of a mapping, without merge keys. -/
def makeEntries (n : NodeId) : Making (List (Scalar × NodeId)) := do
  let graph ← ((← get).graph.free n : Except Failure Graph)
  modify fun w => { w with graph := graph }
  let es ← (graph.entries n).mapM makeEntry
  return Entries.ofList es

/-- Makes the single entry of a mapping. -/
def makeSole (n : NodeId) : Making NodeEntry := do
  match (← get).graph.content n with
  | .mapping [e] =>
    let _ ← make e.1
    let _ ← make e.2
    return e
  | _ => throw .notYaml

/-- Fills a collection. -/
def fill (n : NodeId) : Making Unit := do
  let g := (← get).graph
  match g.tag n, g.content n with
  | .seq, .sequence items =>
    items.forM fun i => do
      let _ ← make i
    note n (.list items)
  | .map, .mapping _ => note n (.map (← makeEntries n))
  | .set, .mapping _ => note n (.set (setMembers (Entries.keys (← makeEntries n))))
  | .omap, .sequence items => note n (.pairs (← items.mapM makeSole))
  | .pairs, .sequence items => note n (.pairs (← items.mapM makeSole))
  | _, _ => throw .notYaml

/-- Fills the waiting collections, then those that were opened on the way.
Every collection waits once. -/
def fillAll : Nat → Making Unit
  | 0 => return
  | rounds + 1 => do
    match (← get).waiting with
    | [] => return
    | waiting =>
      modify fun w => { w with waiting := [] }
      waiting.reverse.forM fill
      fillAll rounds

end Making

/-! ## Unrolling -/

/-- A value, and whether it holds no loop. -/
structure Unrolled where
  value : Data
  isFree : Bool

/-- A step of unrolling. Values without loops are kept, since they are the
same wherever they stand. -/
abbrev Unrolling (α : Type) := StateM (Array (Option Data)) α

namespace Unrolled

/-- Some values with their loops told. -/
def all (parts : List Unrolled) : Bool :=
  parts.all (·.isFree)

/-- The value of a collection by the values of its parts. -/
def ofMade (unroll : NodeId → Unrolling Unrolled) (m : Made) : Unrolling Unrolled := do
  match m with
  | .scalar s => return ⟨.scalar s, true⟩
  | .opened => return ⟨.null, true⟩
  | .list items =>
    let parts ← items.mapM unroll
    return ⟨.list (parts.map (·.value)), all parts⟩
  | .pairs es =>
    let keys ← es.mapM fun e => unroll e.1
    let values ← es.mapM fun e => unroll e.2
    return ⟨.list ((keys.zip values).map fun p => .pair p.1.value p.2.value), all (keys ++ values)⟩
  | .map es =>
    let values ← es.mapM fun e => unroll e.2
    return ⟨.map ((Entries.keys es).zip (values.map (·.value))), all values⟩
  | .set members => return ⟨.set members, true⟩

/-- A collection as it stands inside of itself. -/
def loop (m : Made) : Unrolled :=
  match m with
  | .map _ => ⟨.loop true, false⟩
  | _ => ⟨.loop false, false⟩

/-- The value of a node. `path` holds the collections around it, each of
them once, so no path is longer than there are nodes. -/
def ofNode (made : Array (Option Made)) : Nat → List NodeId → NodeId → Unrolling Unrolled
  | 0, _, _ => return ⟨.null, true⟩
  | fuel + 1, path, n => do
    match (← get)[n]?, made[n]? with
    | some (some d), _ => return ⟨d, true⟩
    | _, some (some m) =>
      if path.contains n then return loop m
      let u ← ofMade (ofNode made fuel (n :: path)) m
      if u.isFree then modify fun kept => kept.setIfInBounds n (some u.value)
      return u
    | _, _ => return ⟨.null, true⟩

/-- The value of the root. The entries of a mapping are unrolled each on
its own, as if nothing stood around them. -/
def ofRoot (made : Array (Option Made)) (root : NodeId) : Unrolling Unrolled := do
  let unroll := ofNode made (made.size + 1) []
  match made[root]? with
  | some (some (.map es)) => ofMade unroll (.map es)
  | _ => unroll root

end Unrolled

namespace Document

/-- Makes all nodes that the root needs. -/
def making (d : Document) : Making Unit := do
  let _ ← Making.make d.root
  Making.fillAll (d.graph.size + 1)

/-- The value of a document, or its first fault. -/
def value (d : Document) : Except Failure Data := do
  let (_, w) ← d.making.run ⟨d.graph, .replicate d.graph.size none, []⟩
  let (u, _) := (Unrolled.ofRoot w.made d.root).run (.replicate d.graph.size none)
  return u.value

end Document

/-! ## Loading a text -/

/-- A character that may stand in a text. -/
def isAllowed (c : Char) : Bool :=
  let n := c.toNat
  n = 9 || n = 10 || n = 13 || (0x20 ≤ n && n ≤ 0x7e) || n = 0x85 || (0xa0 ≤ n && n ≤ 0xfffd) ||
    0x10000 ≤ n

/-- The value that a text writes. -/
def load (text : String) : Except Failure Data := do
  if !text.toList.all isAllowed then throw .notYaml
  match ← Document.ofText? text.toList with
  | some d => d.value
  | none => return .null

end Yaml

end ApiMock
