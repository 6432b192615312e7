import ApiMock.Proofs.Yaml.Cutting
import ApiMock.Proofs.Yaml.Merging
import ApiMock.Yaml.Document
/-!
# Yaml — the nodes of a text in the shared notation

The tokens of a JSON value are read as a tree of nodes that shows the value
(`Document.ofText?_kept`): a node of its own for every part, a part behind
the collection that it stands in.

Nodes are only added, and a collection is changed once, when its parts are
there. What the parts show does not depend on the nodes in front of them
(`Shows.mono`), so it stays.
-/

namespace ApiMock

namespace Yaml

open Json (Phrase Style)

/-! ## What nodes show -/

/-- The nodes that stand for a phrase. -/
inductive Spot where
  | node (n : NodeId)
  | nodes (ns : List NodeId)
  | entries (es : List NodeEntry)

/-- **The nodes show the phrase.** The parts of a collection stand behind it. -/
inductive Shows (g : Graph) : Phrase → Spot → Prop where
  | scalar {j : Json} {s : Scalar} {text : String} {isPlain : Bool} {n : NodeId}
      (hj : j.toData = .scalar s) (hs : Stands text isPlain s) (hn : n < g.size)
      (hnode : g.node n = ⟨Reader.scalarTag none isPlain text, .scalar text⟩) :
      Shows g (.value j) (.node n)
  | sequence {js : List Json} {ns : List NodeId} {n : NodeId}
      (hnode : g.node n = ⟨.seq, .sequence ns⟩) (hn : n < g.size) (hbehind : ∀ m ∈ ns, n < m)
      (h : Shows g (.items js) (.nodes ns)) : Shows g (.value (.arr js)) (.node n)
  | mapping {es : List (String × Json)} {ns : List NodeEntry} {n : NodeId}
      (hnode : g.node n = ⟨.map, .mapping ns⟩) (hn : n < g.size)
      (hbehind : ∀ e ∈ ns, n < e.1 ∧ n < e.2) (h : Shows g (.entries es) (.entries ns)) :
      Shows g (.value (.obj es)) (.node n)
  | noItems : Shows g (.items []) (.nodes [])
  | item {j : Json} {js : List Json} {n : NodeId} {ns : List NodeId}
      (h : Shows g (.value j) (.node n)) (hmore : Shows g (.items js) (.nodes ns)) :
      Shows g (.items (j :: js)) (.nodes (n :: ns))
  | noEntries : Shows g (.entries []) (.entries [])
  | entry {name : String} {j : Json} {es : List (String × Json)} {k n : NodeId}
      {ns : List NodeEntry} (hkey : g.node k = ⟨.str, .scalar name⟩) (hk : k < g.size)
      (h : Shows g (.value j) (.node n)) (hmore : Shows g (.entries es) (.entries ns)) :
      Shows g (.entries ((name, j) :: es)) (.entries ((k, n) :: ns))

/-- All nodes of a spot stand at a number or behind it. -/
def Spot.From (lo : NodeId) : Spot → Prop
  | .node n => lo ≤ n
  | .nodes ns => ∀ n ∈ ns, lo ≤ n
  | .entries es => ∀ e ∈ es, lo ≤ e.1 ∧ lo ≤ e.2

/-- **Nodes in front of those that show a phrase do not count**, nor do more nodes behind. -/
theorem Shows.mono {g h : Graph} {lo : NodeId} (hsize : g.size ≤ h.size)
    (hsame : ∀ i, lo ≤ i → i < g.size → h.node i = g.node i) {p : Phrase} {spot : Spot}
    (hp : Shows g p spot) (hlo : spot.From lo) : Shows h p spot := by
  induction hp with
  | scalar hj hs hn hnode =>
    exact .scalar hj hs (hn.trans_le hsize) ((hsame _ hlo hn).trans hnode)
  | @sequence js ns n hnode hn hbehind _ ih =>
    have hlow : lo ≤ n := hlo
    refine .sequence ((hsame _ hlow hn).trans hnode) (hn.trans_le hsize) hbehind (ih ?_)
    exact fun m hm => hlow.trans (hbehind m hm).le
  | @mapping es ns n hnode hn hbehind _ ih =>
    have hlow : lo ≤ n := hlo
    refine .mapping ((hsame _ hlow hn).trans hnode) (hn.trans_le hsize) hbehind (ih ?_)
    exact fun e he => ⟨hlow.trans (hbehind e he).1.le, hlow.trans (hbehind e he).2.le⟩
  | noItems => exact .noItems
  | item _ _ ih ihmore =>
    obtain ⟨hfirst, hmore⟩ := List.forall_mem_cons.mp hlo
    exact .item (ih hfirst) (ihmore hmore)
  | noEntries => exact .noEntries
  | entry hkey hk _ _ ih ihmore =>
    obtain ⟨hfirst, hmore⟩ := List.forall_mem_cons.mp hlo
    exact .entry ((hsame _ hfirst.1 hk).trans hkey) (hk.trans_le hsize) (ih hfirst.2) (ihmore hmore)

/-! ## Adding nodes -/

namespace Graph

variable {g : Graph} {n i : NodeId}

theorem size_add {node : Node} : (g.add node).size = g.size + 1 := Array.size_push ..

theorem node_add_self {node : Node} : (g.add node).node g.size = node := by
  rw [Graph.node, add, size]
  simp [Array.getD]

theorem node_add_of_lt {node : Node} (h : i < g.size) : (g.add node).node i = g.node i := by
  have hne : i ≠ g.nodes.size := Nat.ne_of_lt h
  rw [Graph.node, Graph.node, add]
  simp [Array.getD_eq_getD_getElem?, Array.getElem?_push, hne]

theorem node_withContent_self {c : Content} (h : n < g.size) :
    (g.withContent n c).node n = ⟨g.tag n, c⟩ := by
  have htag : (g.withContent n c).tag n = g.tag n := tag_withContent
  have hcontent := @content_withContent g n n c
  rw [if_pos ⟨rfl, h⟩] at hcontent
  rw [← htag]
  exact congrArg (Node.mk _) hcontent

theorem node_withContent_of_ne {c : Content} (h : i ≠ n) :
    (g.withContent n c).node i = g.node i := by
  have htag : (g.withContent n c).tag i = g.tag i := tag_withContent
  have hcontent := @content_withContent g n i c
  rw [if_neg fun heq => h heq.1.symm] at hcontent
  calc (g.withContent n c).node i =
      ⟨(g.withContent n c).tag i, (g.withContent n c).content i⟩ := rfl
    _ = ⟨g.tag i, g.content i⟩ := by rw [htag, hcontent]
    _ = g.node i := rfl

end Graph

/-! ## Reading tokens -/

/-- A step goes on from what the one before leaves. -/
theorem run_bind {σ α β : Type} {x : StateT σ (Except Failure) α}
    {f : α → StateT σ (Except Failure) β} {r q : σ} {a : α} (h : x.run r = .ok (a, q)) :
    (x >>= f).run r = (f a).run q := by
  rw [StateT.run_bind, h]
  rfl

namespace Reader

variable {r q : Reader} {t : Token} {ts rest : List Token} {fuel : Nat} {place : Place}

/-- A token that starts a node without properties. -/
def IsContent (t : Token) : Prop :=
  (∃ text isPlain, t = .scalar text isPlain) ∨ t = .flowSequenceStart ∨ t = .flowMappingStart

theorem IsContent.proper (ht : IsContent t) : ∀ f, t ≠ .broken f := by
  rintro f rfl
  rcases ht with ⟨text, isPlain, h⟩ | h | h <;> cases h

theorem peek_run (h : r.tokens = t :: rest) (ht : ∀ f, t ≠ .broken f) :
    peek.run r = .ok (t, r) := by
  rcases r with ⟨tokens, handles, anchors, graph⟩
  cases h
  cases t with
  | broken f => exact absurd rfl (ht f)
  | _ => rfl

theorem advance_run (h : r.tokens = t :: rest) :
    advance.run r = .ok ((), { r with tokens := rest }) := by
  rcases r with ⟨tokens, handles, anchors, graph⟩
  cases h
  rfl

/-- Nothing is said about a node that starts with its content. -/
theorem node_content (h : r.tokens = t :: rest) (ht : IsContent t) :
    (node (fuel + 1) place).run r = (content fuel place ⟨none, none⟩).run r := by
  have hpeek := peek_run h ht.proper
  have hanchor : anchor?.run r = .ok (none, r) := by
    rw [anchor?, run_bind hpeek]
    rcases ht with ⟨text, isPlain, rfl⟩ | rfl | rfl <;> rfl
  have htag : writtenTag?.run r = .ok (none, r) := by
    rw [writtenTag?, run_bind hpeek]
    rcases ht with ⟨text, isPlain, rfl⟩ | rfl | rfl <;> rfl
  have hproperties : properties.run r = .ok (⟨none, none⟩, r) := by
    rw [properties, run_bind hanchor]
    dsimp only
    rw [run_bind htag]
    rfl
  rw [node, run_bind hpeek]
  rcases ht with ⟨text, isPlain, rfl⟩ | rfl | rfl <;> exact run_bind hproperties

/-- A scalar is a node more. -/
theorem node_scalar {text : String} {isPlain : Bool} (h : r.tokens = .scalar text isPlain :: rest) :
    (node (fuel + 2) place).run r = .ok (r.graph.size,
      { r with
        tokens := rest
        graph := r.graph.add ⟨scalarTag none isPlain text, .scalar text⟩ }) := by
  rw [node_content h (.inl ⟨_, _, rfl⟩), content, run_bind (peek_run h nofun)]
  dsimp only
  rw [run_bind (advance_run h)]
  rfl

/-- A sequence is a node more before its items are read, and gets them then. -/
theorem node_sequence {ns : List NodeId} (h : r.tokens = .flowSequenceStart :: rest)
    (hitems : (flowSequence fuel true).run
      { r with tokens := rest, graph := r.graph.add ⟨.seq, .sequence []⟩ } = .ok (ns, q)) :
    (node (fuel + 2) place).run r =
      .ok (r.graph.size, { q with graph := q.graph.withContent r.graph.size (.sequence ns) }) := by
  have hadd : (addNode none ⟨.seq, .sequence []⟩).run { r with tokens := rest } =
      .ok (r.graph.size,
        { r with tokens := rest, graph := r.graph.add ⟨.seq, .sequence []⟩ }) := rfl
  rw [node_content h (.inr (.inl rfl)), content, run_bind (peek_run h nofun)]
  dsimp only
  rw [run_bind (advance_run h), addSequence]
  dsimp only [collectionTag]
  rw [run_bind hadd, run_bind hitems]
  rfl

/-- So is a mapping. -/
theorem node_mapping {ns : List NodeEntry} (h : r.tokens = .flowMappingStart :: rest)
    (hentries : (flowMapping fuel true).run
      { r with tokens := rest, graph := r.graph.add ⟨.map, .mapping []⟩ } = .ok (ns, q)) :
    (node (fuel + 2) place).run r =
      .ok (r.graph.size, { q with graph := q.graph.withContent r.graph.size (.mapping ns) }) := by
  have hadd : (addNode none ⟨.map, .mapping []⟩).run { r with tokens := rest } =
      .ok (r.graph.size, { r with tokens := rest, graph := r.graph.add ⟨.map, .mapping []⟩ }) := rfl
  rw [node_content h (.inr (.inr rfl)), content, run_bind (peek_run h nofun)]
  dsimp only
  rw [run_bind (advance_run h), addMapping]
  dsimp only [collectionTag]
  rw [run_bind hadd, run_bind hentries]
  rfl

/-- A closing bracket ends the items. -/
theorem flowSequence_end {isFirst : Bool} (h : r.tokens = .flowSequenceEnd :: rest) :
    (flowSequence (fuel + 1) isFirst).run r = .ok ([], { r with tokens := rest }) := by
  rw [flowSequence, run_bind (peek_run h nofun)]
  dsimp only
  rw [run_bind (advance_run h)]
  rfl

/-- An item, and those behind it. -/
theorem flowSequence_item {n : NodeId} {ns : List NodeId} {last : Reader}
    (h : r.tokens = t :: rest) (ht : IsContent t)
    (hitem : (node fuel .inFlow).run r = .ok (n, q))
    (hmore : (flowSequence fuel false).run q = .ok (ns, last)) :
    (flowSequence (fuel + 1) true).run r = .ok (n :: ns, last) := by
  have hpeek : peek.run r = .ok (t, r) := peek_run h ht.proper
  have hrest : ((do
      let item ← node fuel .inFlow
      return item :: (← flowSequence fuel false)) : Reading (List NodeId)).run r =
        .ok (n :: ns, last) := by
    rw [run_bind hitem, run_bind hmore]
    rfl
  rw [flowSequence, run_bind hpeek]
  rcases ht with ⟨text, isPlain, rfl⟩ | rfl | rfl
  all_goals
    dsimp only
    rw [if_neg (by decide), run_bind hpeek]
    exact hrest

/-- A comma stands in front of the items that are not the first. -/
theorem flowSequence_comma {ns : List NodeId} {last : Reader}
    (h : r.tokens = .flowEntry :: t :: rest)
    (ht : IsContent t)
    (hitems : (flowSequence (fuel + 1) true).run { r with tokens := t :: rest } = .ok (ns, last)) :
    (flowSequence (fuel + 1) false).run r = .ok (ns, last) := by
  have hpeek : peek.run { r with tokens := t :: rest } = .ok (t, _) := peek_run rfl ht.proper
  rw [flowSequence, run_bind hpeek] at hitems
  rw [flowSequence, run_bind (peek_run h nofun)]
  dsimp only
  rw [if_pos (by decide), run_bind (advance_run h), run_bind hpeek]
  rcases ht with ⟨text, isPlain, rfl⟩ | rfl | rfl
  all_goals
    dsimp only at hitems ⊢
    rw [if_neg (by decide), run_bind hpeek] at hitems
    exact hitems

/-- A closing brace ends the entries. -/
theorem flowMapping_end {isFirst : Bool} (h : r.tokens = .flowMappingEnd :: rest) :
    (flowMapping (fuel + 1) isFirst).run r = .ok ([], { r with tokens := rest }) := by
  rw [flowMapping, run_bind (peek_run h nofun)]
  dsimp only
  rw [run_bind (advance_run h)]
  rfl

/-- A key or a value that is there is a node. -/
theorem flowPart_content (h : r.tokens = t :: rest) (ht : IsContent t) :
    (flowPart (fuel + 1)).run r = (node fuel .inFlow).run r := by
  rw [flowPart, run_bind (peek_run h ht.proper)]
  rcases ht with ⟨text, isPlain, rfl⟩ | rfl | rfl <;> rfl

/-- A key with its value, and the entries behind them. -/
theorem flowMapping_entry {name : String} {n : NodeId} {ns : List NodeEntry} {last : Reader}
    (h : r.tokens = .key :: .scalar name false :: .value :: t :: rest) (ht : IsContent t)
    (hvalue : (node (fuel + 1) .inFlow).run
      { r with tokens := t :: rest, graph := r.graph.add ⟨.str, .scalar name⟩ } = .ok (n, q))
    (hmore : (flowMapping (fuel + 3) false).run q = .ok (ns, last)) :
    (flowMapping (fuel + 4) true).run r = .ok ((r.graph.size, n) :: ns, last) := by
  have hkey : (flowPart (fuel + 3)).run
      { r with tokens := .scalar name false :: .value :: t :: rest } =
      .ok (r.graph.size, { r with
        tokens := .value :: t :: rest
        graph := r.graph.add ⟨.str, .scalar name⟩ }) := by
    have htag : scalarTag none false name = .str := rfl
    rw [flowPart_content rfl (.inl ⟨_, _, rfl⟩), ← htag]
    refine node_scalar ?_
    rfl
  have hbehind : (flowValue (fuel + 3)).run { r with
        tokens := .value :: t :: rest
        graph := r.graph.add ⟨.str, .scalar name⟩ } = .ok (n, q) := by
    rw [flowValue, run_bind (@peek_run _ .value (t :: rest) rfl nofun)]
    dsimp only
    rw [run_bind (@advance_run _ .value (t :: rest) rfl), flowPart_content rfl ht]
    exact hvalue
  have hpeek := peek_run h nofun
  rw [flowMapping, run_bind hpeek]
  dsimp only
  rw [if_neg (by decide), run_bind hpeek]
  dsimp only
  rw [run_bind (advance_run h), run_bind hkey, run_bind hbehind, run_bind hmore]
  rfl

/-- A comma stands in front of the entries that are not the first. -/
theorem flowMapping_comma {ns : List NodeEntry} {last : Reader}
    (h : r.tokens = .flowEntry :: .key :: rest)
    (hentries : (flowMapping (fuel + 1) true).run { r with tokens := .key :: rest } =
      .ok (ns, last)) :
    (flowMapping (fuel + 1) false).run r = .ok (ns, last) := by
  have hpeek : peek.run { r with tokens := .key :: rest } = .ok (.key, _) := peek_run rfl nofun
  rw [flowMapping, run_bind hpeek] at hentries
  dsimp only at hentries
  rw [if_neg (by decide), run_bind hpeek] at hentries
  rw [flowMapping, run_bind (peek_run h nofun)]
  dsimp only
  rw [if_pos (by decide), run_bind (advance_run h), run_bind hpeek]
  exact hentries

/-! ## Reading a phrase -/

/-- A value starts with its content, and so do the items of a sequence; entries start with a
key. -/
theorem head_of_cut {p : Phrase} (h : Cut p ts) : ∃ t us, ts = t :: us ∧
    match p with
    | .value _ | .items _ => IsContent t
    | .entry _ _ | .entries _ => t = .key := by
  induction h with
  | scalar => exact ⟨_, _, rfl, .inl ⟨_, _, rfl⟩⟩
  | emptyArray => exact ⟨_, _, rfl, .inr (.inl rfl)⟩
  | array => exact ⟨_, _, rfl, .inr (.inl rfl)⟩
  | emptyObject => exact ⟨_, _, rfl, .inr (.inr rfl)⟩
  | object => exact ⟨_, _, rfl, .inr (.inr rfl)⟩
  | entry => exact ⟨_, _, rfl, rfl⟩
  | lastItem _ ih | item _ _ ih | lastEntry _ ih | moreEntries _ _ ih =>
    obtain ⟨t, us, rfl, ht⟩ := ih
    exact ⟨t, _, rfl, ht⟩

/-- What reading does to the state: it is behind the tokens, and the nodes from before are the
same. -/
structure Grew (r q : Reader) (rest : List Token) : Prop where
  tokens : q.tokens = rest
  size : r.graph.size ≤ q.graph.size
  same : ∀ i < r.graph.size, q.graph.node i = r.graph.node i

theorem Grew.trans {last : Reader} {us : List Token} (h : Grew r q us) (hq : Grew q last rest) :
    Grew r last rest where
  tokens := hq.tokens
  size := h.size.trans hq.size
  same i hi := (hq.same i (hi.trans_le h.size)).trans (h.same i hi)

/-- A node more. -/
theorem grew_add (r : Reader) (us : List Token) (node : Node) :
    Grew r { r with tokens := us, graph := r.graph.add node } us where
  tokens := rfl
  size := Graph.size_add ▸ Nat.le_succ _
  same _ hi := Graph.node_add_of_lt hi

/-- What was shown is still shown. -/
theorem Grew.shows {p : Phrase} {spot : Spot} (h : Grew r q rest) (hp : Shows r.graph p spot) :
    Shows q.graph p spot := by
  have hfrom : spot.From 0 := by
    cases spot with
    | node n => exact Nat.zero_le n
    | nodes ns => exact fun n _ => Nat.zero_le n
    | entries es => exact fun e _ => ⟨Nat.zero_le _, Nat.zero_le _⟩
  exact hp.mono h.size (fun i _ hi => h.same i hi) hfrom

/-- The tokens of a value are read as a node that shows it, behind those that are there. Twice
as many rounds as there are tokens are enough. -/
def BuildsValue (ts : List Token) (j : Json) : Prop :=
  ∀ (fuel : Nat) {place : Place} {r : Reader} {rest : List Token},
    r.tokens = ts ++ rest → 2 * ts.length ≤ fuel →
    ∃ q, (node fuel place).run r = .ok (r.graph.size, q) ∧ Grew r q rest ∧
      Shows q.graph (.value j) (.node r.graph.size)

/-- So are the tokens of the other phrases. -/
def Builds (ts : List Token) : Phrase → Prop
  | .value j => BuildsValue ts j
  | .items js => ∀ (fuel : Nat) {r : Reader} {rest : List Token},
      r.tokens = ts ++ rest → 2 * ts.length ≤ fuel →
      ∃ ns q, (flowSequence fuel true).run r = .ok (ns, q) ∧ Grew r q rest ∧
        Shows q.graph (.items js) (.nodes ns) ∧ (Spot.nodes ns).From r.graph.size
  | .entry name j => ∃ us, ts = .key :: .scalar name false :: .value :: us ∧
      Cut (.value j) us ∧ BuildsValue us j
  | .entries es => ∀ (fuel : Nat) {r : Reader} {rest : List Token},
      r.tokens = ts ++ rest → 2 * ts.length ≤ fuel →
      ∃ ns q, (flowMapping fuel true).run r = .ok (ns, q) ∧ Grew r q rest ∧
        Shows q.graph (.entries es) (.entries ns) ∧ (Spot.entries ns).From r.graph.size

/-- A collection that got its parts: the nodes from before are the same, and those behind it
show what they did. -/
theorem grew_withContent {tag : Tag} {empty full : Content} {us : List Token}
    (h : Grew { r with tokens := us, graph := r.graph.add ⟨tag, empty⟩ } q rest) :
    Grew r { q with graph := q.graph.withContent r.graph.size full } rest ∧
      (q.graph.withContent r.graph.size full).node r.graph.size = ⟨tag, full⟩ ∧
      r.graph.size < (q.graph.withContent r.graph.size full).size ∧
      ∀ {p spot}, Shows q.graph p spot → spot.From (r.graph.size + 1) →
        Shows (q.graph.withContent r.graph.size full) p spot := by
  -- its own node was added empty, and is the one that changes
  have hadded : (r.graph.add ⟨tag, empty⟩).size ≤ q.graph.size := h.size
  rw [Graph.size_add] at hadded
  have hself : q.graph.node r.graph.size = ⟨tag, empty⟩ := by
    rw [← @Graph.node_add_self r.graph ⟨tag, empty⟩]
    refine h.same _ ?_
    exact Graph.size_add ▸ Nat.lt_succ_self _
  have hsize : (q.graph.withContent r.graph.size full).size = q.graph.size := Graph.size_withContent
  refine ⟨⟨h.tokens, ?_, ?_⟩, ?_, ?_, fun hp hfrom => hp.mono ?_ ?_ hfrom⟩
  · dsimp only
    omega
  · intro i hi
    calc (q.graph.withContent r.graph.size full).node i
        = q.graph.node i := Graph.node_withContent_of_ne (Nat.ne_of_lt hi)
      _ = (r.graph.add ⟨tag, empty⟩).node i :=
        h.same i (Graph.size_add ▸ hi.trans (Nat.lt_succ_self _))
      _ = r.graph.node i := Graph.node_add_of_lt hi
  · rw [Graph.node_withContent_self hadded, Graph.tag, hself]
  · exact hsize ▸ hadded
  · exact hsize.ge
  · exact fun i hi _ => Graph.node_withContent_of_ne (Nat.ne_of_gt hi)

/-- A key stays what it is while its value is read. -/
theorem key_of_grew {name : String} {us : List Token}
    (h : Grew { r with tokens := us, graph := r.graph.add ⟨.str, .scalar name⟩ } q rest) :
    q.graph.node r.graph.size = ⟨.str, .scalar name⟩ ∧ r.graph.size < q.graph.size ∧
      Grew r q rest := by
  have hadded : r.graph.size < (r.graph.add ⟨.str, .scalar name⟩).size :=
    Graph.size_add ▸ Nat.lt_succ_self _
  exact ⟨(h.same _ hadded).trans Graph.node_add_self, hadded.trans_le h.size,
    (grew_add r us _).trans h⟩

variable {j : Json} {js : List Json} {name : String} {es : List (String × Json)} {us : List Token}

theorem builds_scalar {s : Scalar} {text : String} {isPlain : Bool} (hj : j.toData = .scalar s)
    (hs : Stands text isPlain s) : BuildsValue [.scalar text isPlain] j := by
  intro fuel place r rest hr hfuel
  obtain ⟨fuel, rfl⟩ : ∃ f, fuel = f + 2 := ⟨fuel - 2, by simp at hfuel; omega⟩
  refine ⟨_, node_scalar hr, grew_add r rest _, .scalar hj hs ?_ Graph.node_add_self⟩
  exact Graph.size_add ▸ Nat.lt_succ_self _

theorem builds_emptyArray : BuildsValue [.flowSequenceStart, .flowSequenceEnd] (.arr []) := by
  intro fuel place r rest hr hfuel
  obtain ⟨fuel, rfl⟩ : ∃ f, fuel = f + 1 + 2 := ⟨fuel - 3, by simp at hfuel; omega⟩
  obtain ⟨hgrew, hnode, hlt, -⟩ := @grew_withContent r _ rest .seq (.sequence []) (.sequence []) _
    ⟨rfl, le_rfl, fun _ _ => rfl⟩
  exact ⟨_, node_sequence hr (flowSequence_end rfl), hgrew,
    .sequence hnode hlt (by simp) .noItems⟩

theorem builds_array (h : Builds ts (.items js)) :
    BuildsValue (.flowSequenceStart :: ts) (.arr js) := by
  intro fuel place r rest hr hfuel
  rw [List.length_cons] at hfuel
  obtain ⟨fuel, rfl⟩ : ∃ f, fuel = f + 2 := ⟨fuel - 2, by omega⟩
  obtain ⟨ns, q, hrun, hgrew, hshows, hfrom⟩ := @h fuel
    { r with tokens := ts ++ rest, graph := r.graph.add ⟨.seq, .sequence []⟩ } rest rfl (by omega)
  replace hfrom : (Spot.nodes ns).From (r.graph.size + 1) := Graph.size_add ▸ hfrom
  obtain ⟨hgrew, hnode, hlt, hkept⟩ := grew_withContent hgrew
  exact ⟨_, node_sequence hr hrun, hgrew, .sequence hnode hlt hfrom (hkept hshows hfrom)⟩

theorem builds_lastItem (hcut : Cut (.value j) ts) (h : BuildsValue ts j) :
    Builds (ts ++ [.flowSequenceEnd]) (.items [j]) := by
  intro fuel r rest hr hfuel
  rw [List.length_append, List.length_singleton] at hfuel
  obtain ⟨fuel, rfl⟩ : ∃ f, fuel = f + 1 + 1 := ⟨fuel - 2, by omega⟩
  obtain ⟨t, us, rfl, ht⟩ := head_of_cut hcut
  rw [List.append_assoc] at hr
  obtain ⟨q, hrun, hgrew, hshows⟩ := @h (fuel + 1) .inFlow r _ hr (by omega)
  have hend := @flowSequence_end q rest fuel false hgrew.tokens
  refine ⟨_, _, flowSequence_item hr ht hrun hend, ⟨rfl, hgrew.size, hgrew.same⟩,
    .item hshows .noItems, ?_⟩
  exact fun n hn => (List.mem_singleton.mp hn).ge

theorem builds_item (hcut : Cut (.value j) ts) (hcuts : Cut (.items js) us)
    (h : BuildsValue ts j) (hothers : Builds us (.items js)) :
    Builds (ts ++ .flowEntry :: us) (.items (j :: js)) := by
  intro fuel r rest hr hfuel
  rw [List.length_append, List.length_cons] at hfuel
  obtain ⟨fuel, rfl⟩ : ∃ f, fuel = f + 1 + 1 := ⟨fuel - 2, by omega⟩
  obtain ⟨t, vs, rfl, ht⟩ := head_of_cut hcut
  obtain ⟨u, ws, rfl, hu⟩ := head_of_cut hcuts
  rw [List.append_assoc] at hr
  -- the item is read first, so the nodes of the others stand behind its own
  obtain ⟨q, hrun, hgrew, hshows⟩ := @h (fuel + 1) .inFlow r _ hr (by omega)
  obtain ⟨ns, last, hitems, hlast, hmore, hfrom⟩ := @hothers (fuel + 1)
    { q with tokens := u :: ws ++ rest } rest rfl (by omega)
  have hafter : Grew q last rest := ⟨hlast.tokens, hlast.size, hlast.same⟩
  refine ⟨_, last, flowSequence_item hr ht hrun (flowSequence_comma hgrew.tokens hu hitems),
    hgrew.trans hafter, .item (hafter.shows hshows) hmore, ?_⟩
  exact List.forall_mem_cons.mpr ⟨le_rfl, fun n hn => hgrew.size.trans (hfrom n hn)⟩

theorem builds_emptyObject : BuildsValue [.flowMappingStart, .flowMappingEnd] (.obj []) := by
  intro fuel place r rest hr hfuel
  obtain ⟨fuel, rfl⟩ : ∃ f, fuel = f + 1 + 2 := ⟨fuel - 3, by simp at hfuel; omega⟩
  obtain ⟨hgrew, hnode, hlt, -⟩ := @grew_withContent r _ rest .map (.mapping []) (.mapping []) _
    ⟨rfl, le_rfl, fun _ _ => rfl⟩
  exact ⟨_, node_mapping hr (flowMapping_end rfl), hgrew, .mapping hnode hlt (by simp) .noEntries⟩

theorem builds_object (h : Builds ts (.entries es)) :
    BuildsValue (.flowMappingStart :: ts) (.obj es) := by
  intro fuel place r rest hr hfuel
  rw [List.length_cons] at hfuel
  obtain ⟨fuel, rfl⟩ : ∃ f, fuel = f + 2 := ⟨fuel - 2, by omega⟩
  obtain ⟨ns, q, hrun, hgrew, hshows, hfrom⟩ := @h fuel
    { r with tokens := ts ++ rest, graph := r.graph.add ⟨.map, .mapping []⟩ } rest rfl (by omega)
  replace hfrom : (Spot.entries ns).From (r.graph.size + 1) := Graph.size_add ▸ hfrom
  obtain ⟨hgrew, hnode, hlt, hkept⟩ := grew_withContent hgrew
  exact ⟨_, node_mapping hr hrun, hgrew, .mapping hnode hlt hfrom (hkept hshows hfrom)⟩

theorem builds_lastEntry (h : Builds ts (.entry name j)) :
    Builds (ts ++ [.flowMappingEnd]) (.entries [(name, j)]) := by
  intro fuel r rest hr hfuel
  obtain ⟨us, rfl, hcut, hvalue⟩ := h
  simp only [List.length_append, List.length_cons] at hfuel
  obtain ⟨fuel, rfl⟩ : ∃ f, fuel = f + 4 := ⟨fuel - 4, by omega⟩
  obtain ⟨t, vs, rfl, ht⟩ := head_of_cut hcut
  rw [List.append_assoc] at hr
  obtain ⟨q, hrun, hgrew, hshows⟩ := @hvalue (fuel + 1) .inFlow
    { r with
      tokens := t :: vs ++ ([.flowMappingEnd] ++ rest)
      graph := r.graph.add ⟨.str, .scalar name⟩ } _ rfl (by omega)
  obtain ⟨hkey, hk, hfrom⟩ := key_of_grew hgrew
  have hend := @flowMapping_end q rest (fuel + 2) false hgrew.tokens
  refine ⟨_, _, flowMapping_entry hr ht hrun hend, ⟨rfl, hfrom.size, hfrom.same⟩,
    .entry hkey hk hshows .noEntries, ?_⟩
  exact fun e he => List.mem_singleton.mp he ▸ ⟨le_rfl, Graph.size_add ▸ Nat.le_succ _⟩

theorem builds_moreEntries (hcuts : Cut (.entries es) us) (h : Builds ts (.entry name j))
    (hothers : Builds us (.entries es)) :
    Builds (ts ++ .flowEntry :: us) (.entries ((name, j) :: es)) := by
  intro fuel r rest hr hfuel
  obtain ⟨ks, rfl, hcut, hvalue⟩ := h
  simp only [List.length_append, List.length_cons] at hfuel
  obtain ⟨fuel, rfl⟩ : ∃ f, fuel = f + 4 := ⟨fuel - 4, by omega⟩
  obtain ⟨t, vs, rfl, ht⟩ := head_of_cut hcut
  obtain ⟨u, ws, rfl, hu⟩ := head_of_cut hcuts
  obtain rfl : u = .key := hu
  rw [List.append_assoc] at hr
  obtain ⟨q, hrun, hgrew, hshows⟩ := @hvalue (fuel + 1) .inFlow
    { r with
      tokens := t :: vs ++ (.flowEntry :: .key :: ws ++ rest)
      graph := r.graph.add ⟨.str, .scalar name⟩ } _ rfl (by omega)
  obtain ⟨hkey, hk, hfrom⟩ := key_of_grew hgrew
  obtain ⟨ns, last, hentries, hlast, hmore, hbehind⟩ := @hothers (fuel + 3)
    { q with tokens := .key :: ws ++ rest } rest rfl (by omega)
  have hafter : Grew q last rest := ⟨hlast.tokens, hlast.size, hlast.same⟩
  have hcomma := flowMapping_comma hgrew.tokens hentries
  refine ⟨_, last, flowMapping_entry hr ht hrun hcomma, hfrom.trans hafter, ?_, ?_⟩
  · exact .entry ((hafter.same _ hk).trans hkey) (hk.trans_le hafter.size) (hafter.shows hshows)
      hmore
  · refine List.forall_mem_cons.mpr ⟨⟨le_rfl, Graph.size_add ▸ Nat.le_succ _⟩, fun e he => ?_⟩
    exact ⟨hfrom.size.trans (hbehind e he).1, hfrom.size.trans (hbehind e he).2⟩

/-- **The tokens of a phrase are read as nodes that show it.** -/
theorem builds_of_cut {p : Phrase} (h : Cut p ts) : Builds ts p := by
  induction h with
  | scalar hj hs => exact builds_scalar hj hs
  | emptyArray => exact builds_emptyArray
  | array _ ih => exact builds_array ih
  | lastItem h ih => exact builds_lastItem h ih
  | item h hmore ih ihmore => exact builds_item h hmore ih ihmore
  | emptyObject => exact builds_emptyObject
  | object _ ih => exact builds_object ih
  | @entry name j ts h ih => exact ⟨ts, rfl, h, ih⟩
  | lastEntry _ ih => exact builds_lastEntry ih
  | moreEntries _ hmore ih ihmore => exact builds_moreEntries hmore ih ihmore

/-- A text that is one value is one document. -/
theorem onlyDocument_run {j : Json} (h : Cut (.value j) ts) (hr : r.tokens = ts ++ [.textEnd])
    (hfuel : 2 * ts.length < fuel) :
    ∃ q, (onlyDocument fuel).run r = .ok (some r.graph.size, q) ∧
      Shows q.graph (.value j) (.node r.graph.size) := by
  obtain ⟨t, us, rfl, ht⟩ := head_of_cut h
  have hpeek : peek.run r = .ok (t, r) := peek_run hr ht.proper
  have hvalue : BuildsValue (t :: us) j := builds_of_cut h
  obtain ⟨q, hrun, hgrew, hshows⟩ :=
    @hvalue fuel .inBlock { r with handles := standardHandles } _ hr
    (by omega)
  have hdocument : (document fuel).run r = .ok (some r.graph.size, q) := by
    rw [document, run_bind hpeek]
    rcases ht with ⟨text, isPlain, rfl⟩ | rfl | rfl
    all_goals
      have hroot : (some <$> node fuel .inBlock).run { r with handles := standardHandles } =
          .ok (some r.graph.size, q) := by
        rw [map_eq_pure_bind, run_bind hrun]
        rfl
      exact hroot
  have hend : peek.run q = .ok (.textEnd, q) := peek_run hgrew.tokens nofun
  have hends : (documentEnds fuel).run q = .ok ((), q) := by
    obtain ⟨fuel, rfl⟩ : ∃ f, fuel = f + 1 := ⟨fuel - 1, by omega⟩
    rw [documentEnds, run_bind hend]
    rfl
  refine ⟨q, ?_, hshows⟩
  rw [onlyDocument, run_bind hdocument]
  dsimp only
  rw [run_bind hends, run_bind hend]
  rfl

end Reader

/-- **A text in the shared notation is one document, whose root shows its value.** -/
theorem ofText?_kept {j : Json} {text : List Char} (h : Style.kept.Renders j text) :
    ∃ d : Document, Document.ofText? text = .ok (some d) ∧
      Shows d.graph (.value j) (.node d.root) := by
  obtain ⟨lead, ks, trail, hlead, hks, htrail, rfl⟩ := h
  obtain ⟨ts, hcut, htokens⟩ := tokens_kept hlead hks htrail
  obtain ⟨q, hrun, hshows⟩ := @Reader.onlyDocument_run ⟨ts ++ [.textEnd], [], [], ⟨#[]⟩⟩ ts
    (4 * (ts ++ [Token.textEnd]).length + 8) j hcut rfl
    (by rw [List.length_append]; omega)
  refine ⟨⟨q.graph, 0⟩, ?_, hshows⟩
  rw [Document.ofText?, htokens]
  dsimp only
  rw [hrun]
  rfl

end Yaml

end ApiMock
