import ApiMock.Json.Encode
import ApiMock.Proofs.Entries
import ApiMock.Proofs.Yaml.Nodes
import ApiMock.Yaml.Value
/-!
# Yaml — the value of nodes that show a JSON value

Nodes that show a JSON value have that value (`Document.value_of_shows`): of several
values under one name the last counts, at the place of the first, as in a
decoder (`Json.decoded`). So a text in the notation that YAML shares with JSON is
loaded as its value (`load_kept`).

Making takes a round for each depth at most, and the parts of a collection stand
behind it, so a round less is left than there are numbers in front of those
that wait (`Keeps`). Nothing stands inside of itself, so unrolling cuts nothing.
-/

namespace ApiMock

namespace Json

mutual
/-- **The document value of what a JSON text writes.** Of several values under one name the last
counts, at the place of the first. -/
def decoded : Json → Data
  | null => Data.null
  | bool b => Data.bool b
  | int n => Data.int n
  | float x => .scalar (.float x)
  | str s => Data.str s
  | arr items => .list (decodedItems items)
  | obj es => .map (Entries.ofList (decodedEntries es))

/-- The elements of an array. -/
def decodedItems : List Json → List Data
  | [] => []
  | j :: rest => j.decoded :: decodedItems rest

/-- The entries of an object as they are written. -/
def decodedEntries : List (String × Json) → List (Scalar × Data)
  | [] => []
  | (k, j) :: rest => (.str k, j.decoded) :: decodedEntries rest
end

/-- A value without parts is decoded as itself. -/
theorem decoded_scalar {j : Json} {s : Scalar} (h : j.toData = .scalar s) :
    j.decoded = .scalar s := by
  cases j <;> first | exact h | cases h

/-- It is known by its scalar. -/
theorem eq_of_toData_scalar {j k : Json} {s : Scalar} (hj : j.toData = .scalar s)
    (hk : k.toData = .scalar s) : j = k := by
  have hsame : j.toData = k.toData := hj.trans hk.symm
  cases j <;> cases k <;> cases hj <;> cases hk <;> rfl

end Json

namespace Yaml

open Json (Phrase)

variable {g : Graph}

/-- **Nodes show one phrase only.** -/
theorem Shows.unique {p : Phrase} {spot : Spot} (h : Shows g p spot) : ∀ {q : Phrase},
    Shows g q spot → p = q := by
  induction h with
  | scalar hj hs hn hnode =>
    intro q hq
    cases hq with
    | scalar hk ht _ hsame =>
      have heq : Except.ok (some _) = Except.ok (some _) :=
        (hs.value hnode).symm.trans (ht.value hsame)
      obtain rfl := Option.some.inj (Except.ok.inj heq)
      rw [Json.eq_of_toData_scalar hj hk]
    | sequence hsame =>
      cases congrArg Node.content (hnode.symm.trans hsame)
    | mapping hsame => cases congrArg Node.content (hnode.symm.trans hsame)
  | sequence hnode _ _ _ ih =>
    intro q hq
    cases hq with
    | scalar _ _ _ hsame => cases congrArg Node.content (hnode.symm.trans hsame)
    | sequence hsame _ _ h =>
      cases congrArg Node.content (hnode.symm.trans hsame)
      cases ih h
      rfl
    | mapping hsame => cases congrArg Node.content (hnode.symm.trans hsame)
  | mapping hnode _ _ _ ih =>
    intro q hq
    cases hq with
    | scalar _ _ _ hsame => cases congrArg Node.content (hnode.symm.trans hsame)
    | sequence hsame => cases congrArg Node.content (hnode.symm.trans hsame)
    | mapping hsame _ _ h =>
      cases congrArg Node.content (hnode.symm.trans hsame)
      cases ih h
      rfl
  | noItems =>
    intro q hq
    cases hq
    rfl
  | item _ _ ih ihmore =>
    intro q hq
    cases hq with
    | item h hmore =>
      cases ih h
      cases ihmore hmore
      rfl
  | noEntries =>
    intro q hq
    cases hq
    rfl
  | entry hkey _ _ _ ih ihmore =>
    intro q hq
    cases hq with
    | entry hsame _ h hmore =>
      cases congrArg Node.content (hkey.symm.trans hsame)
      cases ih h
      cases ihmore hmore
      rfl

/-- The nodes of some items show values. -/
theorem Shows.of_mem_nodes {js : List Json} {ns : List NodeId}
    (h : Shows g (.items js) (.nodes ns)) {n : NodeId} (hn : n ∈ ns) :
    ∃ j, Shows g (.value j) (.node n) := by
  induction ns generalizing js with
  | nil => cases hn
  | cons m ns ih =>
    cases h with
    | item h hmore =>
      rcases List.mem_cons.mp hn with rfl | hn
      · exact ⟨_, h⟩
      · exact ih hmore hn

/-- The nodes of some entries are texts and show values. -/
theorem Shows.of_mem_entries {es : List (String × Json)} {ns : List NodeEntry}
    (h : Shows g (.entries es) (.entries ns)) {e : NodeEntry} (he : e ∈ ns) :
    (∃ name, g.node e.1 = ⟨.str, .scalar name⟩ ∧ e.1 < g.size) ∧
      ∃ j, Shows g (.value j) (.node e.2) := by
  induction ns generalizing es with
  | nil => cases he
  | cons d ns ih =>
    cases h with
    | entry hkey hk h hmore =>
      rcases List.mem_cons.mp he with rfl | he
      · exact ⟨⟨_, hkey, hk⟩, _, h⟩
      · exact ih hmore he

/-! ## Making the nodes -/

namespace Making

variable {w v : Workshop} {n i : NodeId} {m : Made} {lo : Nat} {todo pending : List NodeId}
  {made : Array (Option Made)}

/-- The text of a key. -/
def keyOf (g : Graph) (n : NodeId) : Scalar :=
  match g.content n with
  | .scalar name => .str name
  | _ => .null

/-- A node was made into something. -/
def IsMade (made : Array (Option Made)) (n : NodeId) : Prop :=
  ∃ m, made[n]? = some (some m)

/-- What a node is made into in the end, if its parts are made as well. -/
inductive Filled (g : Graph) (made : Array (Option Made)) (n : NodeId) : Made → Prop where
  | scalar {s : Scalar} (h : g.scalar? n = .ok (some s)) : Filled g made n (.scalar s)
  | list {items : List NodeId} (h : g.content n = .sequence items)
      (hmade : ∀ i ∈ items, IsMade made i) : Filled g made n (.list items)
  | map {es : List NodeEntry} (h : g.content n = .mapping es) (hmade : ∀ e ∈ es, IsMade made e.2) :
      Filled g made n (.map (Entries.ofList (es.map fun e => (keyOf g e.1, e.2))))

/-- What a node is made into on the way: a collection may still wait to be filled. -/
inductive Fits (g : Graph) (made : Array (Option Made)) (pending : List NodeId) (n : NodeId) :
    Made → Prop where
  | opened (h : n ∈ pending) (hnone : g.scalar? n = .ok none) : Fits g made pending n .opened
  | filled {m : Made} (h : Filled g made n m) : Fits g made pending n m

theorem Filled.mono {later : Array (Option Made)} (h : Filled g made n m)
    (hlater : ∀ i, IsMade made i → IsMade later i) : Filled g later n m := by
  cases h with
  | scalar h => exact .scalar h
  | list h hmade => exact .list h fun i hi => hlater i (hmade i hi)
  | map h hmade => exact .map h fun e he => hlater e.2 (hmade e he)

/-- **What holds of the workshop between two steps.** All that is made fits the nodes; those
that wait or are in turn show collections, and those that wait have no number below `lo`. -/
structure Keeps (g : Graph) (lo : Nat) (todo : List NodeId) (w : Workshop) : Prop where
  graph : w.graph = g
  size : w.made.size = g.size
  fits : ∀ {n m}, w.made[n]? = some (some m) → Fits g w.made (w.waiting ++ todo) n m
  collections : ∀ n ∈ w.waiting ++ todo,
    g.scalar? n = .ok none ∧ ∃ j, Shows g (.value j) (.node n)
  low : ∀ n ∈ w.waiting, lo ≤ n

/-- What was made stays made. -/
def Later (w v : Workshop) : Prop :=
  ∀ i, IsMade w.made i → IsMade v.made i

theorem Later.trans {u : Workshop} (h : Later w v) (hv : Later v u) : Later w u :=
  fun i hi => hv i (h i hi)

/-- A note of what a node is made into. -/
theorem Keeps.note (h : Keeps g lo todo w) (hn : n < g.size) {waiting left : List NodeId}
    (hpending : ∀ i ∈ w.waiting ++ todo, i ≠ n → i ∈ waiting ++ left)
    (hfits : ∀ later, (∀ i, IsMade w.made i → IsMade later i) → Fits g later (waiting ++ left) n m)
    (hcollections : ∀ i ∈ waiting ++ left,
      g.scalar? i = .ok none ∧ ∃ j, Shows g (.value j) (.node i))
    (hlow : ∀ i ∈ waiting, lo ≤ i) {v : Workshop}
    (hv : v = { w with made := w.made.setIfInBounds n (some m), waiting := waiting }) :
    Keeps g lo left v ∧ Later w v ∧ IsMade v.made n := by
  have hself : v.made[n]? = some (some m) := by
    rw [hv, Array.getElem?_setIfInBounds_self_of_lt (h.size ▸ hn)]
  have hother : ∀ {i}, i ≠ n → v.made[i]? = w.made[i]? := fun hi => by
    rw [hv, Array.getElem?_setIfInBounds_ne hi.symm]
  have hlater : Later w v := by
    rintro i ⟨k, hk⟩
    by_cases hi : i = n
    · exact ⟨m, hi ▸ hself⟩
    · exact ⟨k, (hother hi).trans hk⟩
  refine ⟨⟨?_, ?_, ?_, ?_, ?_⟩, hlater, m, hself⟩
  · rw [hv]
    exact h.graph
  · rw [hv, Array.size_setIfInBounds]
    exact h.size
  · intro i k hk
    have hwaiting : v.waiting = waiting := by rw [hv]
    rw [hwaiting]
    by_cases hi : i = n
    · rw [hi, hself] at hk
      cases hk
      exact hi ▸ hfits v.made hlater
    · rw [hother hi] at hk
      cases h.fits hk with
      | opened hin hnone => exact .opened (hpending i hin hi) hnone
      | filled hfilled => exact .filled (hfilled.mono hlater)
  · rw [hv]
    exact hcollections
  · rw [hv]
    exact hlow

/-- A node is a scalar or a collection. -/
theorem scalar?_of_shows {j : Json} (h : Shows g (.value j) (.node n)) : n < g.size ∧
    ((∃ s text, g.scalar? n = .ok (some s) ∧ g.content n = .scalar text) ∨
      g.scalar? n = .ok none) := by
  cases h with
  | scalar hj hs hn hnode =>
    exact ⟨hn, .inl ⟨_, _, hs.value hnode, congrArg Node.content hnode⟩⟩
  | sequence hnode hn =>
    refine ⟨hn, .inr ?_⟩
    rw [Graph.scalar?, Graph.tag, hnode]
  | mapping hnode hn =>
    refine ⟨hn, .inr ?_⟩
    rw [Graph.scalar?, Graph.tag, hnode]

/-- A scalar is made into the scalar. -/
theorem Keeps.scalar {text : String} {s : Scalar} (h : Keeps g lo todo w)
    (hm : w.made[n]? = some (some m)) (hs : g.scalar? n = .ok (some s))
    (hcontent : g.content n = .scalar text) : m = .scalar s := by
  cases h.fits hm with
  | opened _ hnone => cases hs.symm.trans hnone
  | filled hfilled =>
    cases hfilled with
    | scalar hscalar =>
      cases hs.symm.trans hscalar
      rfl
    | list hlist => cases hcontent.symm.trans hlist
    | map hmap => cases hcontent.symm.trans hmap

/-- **Making a node keeps what holds**, and the node is made then. -/
theorem make_keeps (h : Keeps g lo todo w) {j : Json} (hj : Shows g (.value j) (.node n))
    (hlo : lo ≤ n) : ∃ m v, (make n).run w = .ok (m, v) ∧ Keeps g lo todo v ∧ Later w v ∧
      IsMade v.made n ∧ ∀ s, g.scalar? n = .ok (some s) → m = .scalar s := by
  obtain ⟨hn, hkind⟩ := scalar?_of_shows hj
  have hget : (get : Making Workshop).run w = .ok (w, w) := rfl
  by_cases hmade : IsMade w.made n
  -- it was made before, and nothing changes
  · obtain ⟨m, hm⟩ := hmade
    refine ⟨m, w, ?_, h, fun _ hi => hi, ⟨m, hm⟩, fun s hs => ?_⟩
    · rw [make, run_bind hget, hm]
      rfl
    · rcases hkind with ⟨_, text, -, hcontent⟩ | hnone
      · exact h.scalar hm hs hcontent
      · cases hs.symm.trans hnone
  · have hnew : (make n).run w = (makeNew n).run w := by
      rw [make, run_bind hget]
      split
      · rename_i m hm
        exact absurd ⟨m, hm⟩ hmade
      · rfl
    have hlift : ∀ {kind : Option Scalar}, g.scalar? n = .ok kind →
        (liftM (w.graph.scalar? n) : Making (Option Scalar)).run w = .ok (kind, w) := by
      intro kind hkind
      rw [h.graph, hkind]
      rfl
    rw [hnew, makeNew, run_bind hget]
    -- a scalar is made at once, a collection is opened and waits
    rcases hkind with ⟨s, text, hs, -⟩ | hnone
    · obtain ⟨hkeeps, hlater, hself⟩ := h.note hn (fun i hi _ => hi)
        (fun later _ => .filled (.scalar hs)) h.collections h.low rfl
      rw [run_bind (hlift hs)]
      refine ⟨.scalar s, _, rfl, hkeeps, hlater, hself, fun t ht => ?_⟩
      cases hs.symm.trans ht
      rfl
    · have hpending : ∀ i ∈ w.waiting ++ todo, i ≠ n → i ∈ n :: w.waiting ++ todo :=
        fun i hi _ => List.mem_cons_of_mem n hi
      obtain ⟨hkeeps, hlater, hself⟩ := h.note hn hpending
        (fun later _ => .opened List.mem_cons_self hnone)
        (List.forall_mem_cons.mpr ⟨⟨hnone, j, hj⟩, h.collections⟩)
        (List.forall_mem_cons.mpr ⟨hlo, h.low⟩) rfl
      rw [run_bind (hlift hnone)]
      exact ⟨.opened, _, rfl, hkeeps, hlater, hself, fun t ht => by cases hnone.symm.trans ht⟩

/-- So is each of several nodes. -/
theorem forM_keeps {items : List NodeId} (h : Keeps g lo todo w)
    (hitems : ∀ i ∈ items, lo ≤ i ∧ ∃ j, Shows g (.value j) (.node i)) :
    ∃ v, (items.forM fun i => do let _ ← make i).run w = .ok ((), v) ∧ Keeps g lo todo v ∧
      Later w v ∧ ∀ i ∈ items, IsMade v.made i := by
  induction items generalizing w with
  | nil => exact ⟨w, rfl, h, fun _ hi => hi, by simp⟩
  | cons i items ih =>
    obtain ⟨⟨hlo, j, hj⟩, hmore⟩ := List.forall_mem_cons.mp hitems
    obtain ⟨m, u, hrun, hu, hlater, hmade, -⟩ := make_keeps h hj hlo
    obtain ⟨v, hruns, hv, hlast, hothers⟩ := ih hu hmore
    have hstep : (do let _ ← make i : Making Unit).run w = .ok ((), u) := by
      rw [run_bind hrun]
      rfl
    refine ⟨v, ?_, hv, hlater.trans hlast, List.forall_mem_cons.mpr ⟨hlast i hmade, hothers⟩⟩
    exact (run_bind hstep).trans hruns

/-- The key of an entry is its text, and its value is made. -/
theorem makeEntry_keeps {e : NodeEntry} {name : String} (h : Keeps g lo todo w)
    (hkey : g.node e.1 = ⟨.str, .scalar name⟩) (hk : e.1 < g.size) {j : Json}
    (hj : Shows g (.value j) (.node e.2)) (hlo : lo ≤ e.1 ∧ lo ≤ e.2) :
    ∃ v, (makeEntry e).run w = .ok ((keyOf g e.1, e.2), v) ∧ Keeps g lo todo v ∧ Later w v ∧
      IsMade v.made e.2 := by
  have hname : Shows g (.value (.str name)) (.node e.1) := .scalar rfl (stands_text name) hk hkey
  have htext : g.scalar? e.1 = .ok (some (.str name)) := (stands_text name).value hkey
  have hkeyOf : keyOf g e.1 = .str name := by rw [keyOf, Graph.content, hkey]
  obtain ⟨m, u, hrun, hu, hlater, -, hm⟩ := make_keeps h hname hlo.1
  obtain ⟨d, v, hvalue, hv, hlast, hmade, -⟩ := make_keeps hu hj hlo.2
  have hmakeKey : (makeKey e.1).run w = .ok (.str name, u) := by
    rw [makeKey, run_bind hrun, hm _ htext]
    rfl
  refine ⟨v, ?_, hv, hlater.trans hlast, hmade⟩
  rw [makeEntry, run_bind hmakeKey, run_bind hvalue, hkeyOf]
  rfl

/-- The entries of a mapping are made one after the other. -/
theorem mapM_keeps {ns es : List NodeEntry} {entries : List (String × Json)} (h : Keeps g lo todo w)
    (hshows : Shows g (.entries entries) (.entries es)) (hes : ∀ e ∈ ns, e ∈ es)
    (hlo : ∀ e ∈ ns, lo ≤ e.1 ∧ lo ≤ e.2) :
    ∃ v, (ns.mapM makeEntry).run w = .ok (ns.map fun e => (keyOf g e.1, e.2), v) ∧
      Keeps g lo todo v ∧ Later w v ∧ ∀ e ∈ ns, IsMade v.made e.2 := by
  induction ns generalizing w with
  | nil => exact ⟨w, rfl, h, fun _ hi => hi, by simp⟩
  | cons e ns ih =>
    obtain ⟨hfirst, hmore⟩ := List.forall_mem_cons.mp hlo
    obtain ⟨he, hothers⟩ := List.forall_mem_cons.mp hes
    obtain ⟨⟨name, hkey, hk⟩, j, hj⟩ := hshows.of_mem_entries he
    obtain ⟨u, hrun, hu, hlater, hmade⟩ := makeEntry_keeps h hkey hk hj hfirst
    obtain ⟨v, hruns, hv, hlast, hrest⟩ := ih hu hothers hmore
    refine ⟨v, ?_, hv, hlater.trans hlast, List.forall_mem_cons.mpr ⟨hlast _ hmade, hrest⟩⟩
    rw [List.mapM_cons, run_bind hrun, run_bind hruns]
    rfl

/-- A mapping without keys of a meaning of their own stays as it is. -/
theorem free_of_shows {es : List (String × Json)} {ns : List NodeEntry}
    (hcontent : g.content n = .mapping ns) (h : Shows g (.entries es) (.entries ns)) :
    g.free n = .ok g := by
  have hentries : g.entries n = ns := by rw [Graph.entries, hcontent]
  have hany : ((g.entries n).any fun e => g.isMerge e || g.tag e.1 = .value) = false := by
    rw [List.any_eq_false, hentries]
    intro e he
    obtain ⟨⟨name, hkey, -⟩, -⟩ := h.of_mem_entries he
    have htag : g.tag e.1 = .str := congrArg Node.tag hkey
    simp [Graph.isMerge, htag]
  rw [Graph.free, hany, if_neg Bool.false_ne_true]

/-- A collection in turn is done with once it is noted what it is made into. -/
theorem note_keeps (h : Keeps g lo (n :: todo) w) (hn : n < g.size)
    (hfilled : ∀ later, (∀ i, IsMade w.made i → IsMade later i) → Filled g later n m) :
    ∃ v, (note n m).run w = .ok ((), v) ∧ Keeps g lo todo v ∧ Later w v := by
  have hpending : ∀ i ∈ w.waiting ++ n :: todo, i ≠ n → i ∈ w.waiting ++ todo := by
    intro i hi hne
    rcases List.mem_append.mp hi with hi | hi
    · exact List.mem_append_left _ hi
    · exact List.mem_append_right _ ((List.mem_cons.mp hi).resolve_left hne)
  have hrest : ∀ i ∈ w.waiting ++ todo, i ∈ w.waiting ++ n :: todo := by
    intro i hi
    rcases List.mem_append.mp hi with hi | hi
    · exact List.mem_append_left _ hi
    · exact List.mem_append_right _ (List.mem_cons_of_mem n hi)
  obtain ⟨hkeeps, hlater, -⟩ := h.note hn hpending (fun later hl => .filled (hfilled later hl))
    (fun i hi => h.collections i (hrest i hi)) h.low rfl
  exact ⟨_, rfl, hkeeps, hlater⟩

/-- A list in turn is filled. -/
theorem fill_sequence {js : List Json} {ns : List NodeId} (h : Keeps g lo (n :: todo) w)
    (hnode : g.node n = ⟨.seq, .sequence ns⟩) (hn : n < g.size) (hlo : (Spot.nodes ns).From lo)
    (hshows : Shows g (.items js) (.nodes ns)) :
    ∃ v, (fill n).run w = .ok ((), v) ∧ Keeps g lo todo v ∧ Later w v := by
  have hget : (get : Making Workshop).run w = .ok (w, w) := rfl
  have htag : g.tag n = .seq := congrArg Node.tag hnode
  have hcontent : g.content n = .sequence ns := congrArg Node.content hnode
  obtain ⟨u, hrun, hu, hlater, hmade⟩ := forM_keeps h fun i hi => ⟨hlo i hi, hshows.of_mem_nodes hi⟩
  obtain ⟨v, hnote, hv, hlast⟩ := note_keeps hu hn fun later hl =>
    .list hcontent fun i hi => hl i (hmade i hi)
  refine ⟨v, ?_, hv, hlater.trans hlast⟩
  rw [fill, run_bind hget]
  dsimp only
  rw [h.graph, htag, hcontent]
  exact (run_bind hrun).trans hnote

/-- A mapping in turn is filled. -/
theorem fill_mapping {es : List (String × Json)} {ns : List NodeEntry}
    (h : Keeps g lo (n :: todo) w) (hnode : g.node n = ⟨.map, .mapping ns⟩) (hn : n < g.size)
    (hlo : (Spot.entries ns).From lo) (hshows : Shows g (.entries es) (.entries ns)) :
    ∃ v, (fill n).run w = .ok ((), v) ∧ Keeps g lo todo v ∧ Later w v := by
  have hget : (get : Making Workshop).run w = .ok (w, w) := rfl
  have htag : g.tag n = .map := congrArg Node.tag hnode
  have hcontent : g.content n = .mapping ns := congrArg Node.content hnode
  have hentries : g.entries n = ns := by rw [Graph.entries, hcontent]
  obtain ⟨u, hrun, hu, hlater, hmade⟩ := mapM_keeps h hshows (fun _ he => he) hlo
  obtain ⟨v, hnote, hv, hlast⟩ := note_keeps hu hn fun later hl =>
    .map hcontent fun e he => hl e.2 (hmade e he)
  have hfree : (liftM (w.graph.free n) : Making Graph).run w = .ok (g, w) := by
    rw [h.graph, free_of_shows hcontent hshows]
    rfl
  have hsame : (modify fun w => { w with graph := g } : Making Unit).run w = .ok ((), w) := by
    have hw : { w with graph := g } = w := by rw [← h.graph]
    exact congrArg (fun w => Except.ok ((), w)) hw
  have hmake : (makeEntries n).run w =
      .ok (Entries.ofList (ns.map fun e => (keyOf g e.1, e.2)), u) := by
    rw [makeEntries, run_bind hget, run_bind hfree, run_bind hsame, hentries, run_bind hrun]
    rfl
  refine ⟨v, ?_, hv, hlater.trans hlast⟩
  rw [fill, run_bind hget]
  dsimp only
  rw [h.graph, htag, hcontent]
  exact (run_bind hmake).trans hnote

/-- **A collection in turn is filled.** What it opens stands behind it. -/
theorem fill_keeps (h : Keeps g (lo + 1) (n :: todo) w) (hlo : lo ≤ n) :
    ∃ v, (fill n).run w = .ok ((), v) ∧ Keeps g (lo + 1) todo v ∧ Later w v := by
  have hin : n ∈ w.waiting ++ n :: todo := List.mem_append_right _ List.mem_cons_self
  obtain ⟨hnone, j, hj⟩ := h.collections n hin
  have hbelow : lo + 1 ≤ n + 1 := Nat.succ_le_succ hlo
  cases hj with
  | scalar _ hs _ hnode => cases (hs.value hnode).symm.trans hnone
  | sequence hnode hn hbehind hshows =>
    exact fill_sequence h hnode hn (fun i hi => hbelow.trans (hbehind i hi)) hshows
  | mapping hnode hn hbehind hshows =>
    exact fill_mapping h hnode hn
      (fun e he => ⟨hbelow.trans (hbehind e he).1, hbelow.trans (hbehind e he).2⟩) hshows

/-- The collections of a round are filled. -/
theorem fillRound_keeps (h : Keeps g (lo + 1) todo w) (hlo : ∀ n ∈ todo, lo ≤ n) :
    ∃ v, (todo.forM fill).run w = .ok ((), v) ∧ Keeps g (lo + 1) [] v ∧ Later w v := by
  induction todo generalizing w with
  | nil => exact ⟨w, rfl, h, fun _ hi => hi⟩
  | cons n todo ih =>
    obtain ⟨hn, hmore⟩ := List.forall_mem_cons.mp hlo
    obtain ⟨u, hrun, hu, hlater⟩ := fill_keeps h hn
    obtain ⟨v, hruns, hv, hlast⟩ := ih hu hmore
    exact ⟨v, (run_bind hrun).trans hruns, hv, hlater.trans hlast⟩

/-- **All collections are filled in the end**, if there are as many rounds as numbers from the
least one that waits. -/
theorem fillAll_keeps {rounds : Nat} (h : Keeps g lo [] w) (hrounds : g.size ≤ rounds + lo) :
    ∃ v, (fillAll rounds).run w = .ok ((), v) ∧ Keeps g lo [] v ∧ v.waiting = [] ∧ Later w v := by
  have hget : (get : Making Workshop).run w = .ok (w, w) := rfl
  induction rounds generalizing w lo with
  | zero =>
    have hnone : w.waiting = [] := by
      refine List.eq_nil_iff_forall_not_mem.mpr fun n hn => ?_
      obtain ⟨-, j, hj⟩ := h.collections n (List.mem_append_left _ hn)
      have hlt : n < g.size := (scalar?_of_shows hj).1
      have hleast : g.size ≤ lo := by rwa [Nat.zero_add] at hrounds
      -- no number is left for what waits
      exact absurd (h.low n hn) (Nat.not_le.mpr (hlt.trans_le hleast))
    exact ⟨w, rfl, h, hnone, fun _ hi => hi⟩
  | succ rounds ih =>
    by_cases hnone : w.waiting = []
    · refine ⟨w, ?_, h, hnone, fun _ hi => hi⟩
      rw [fillAll, run_bind hget, hnone]
      rfl
    -- those that wait are taken in turn, and what they open stands behind them
    · have hempty : Keeps g (lo + 1) w.waiting.reverse { w with waiting := [] } := by
        have hpending : ∀ i, i ∈ w.waiting ++ [] ↔ i ∈ [] ++ w.waiting.reverse := by simp
        refine ⟨h.graph, h.size, fun hm => ?_, fun n hn => ?_, by simp⟩
        · cases h.fits hm with
          | opened hin hscalar => exact .opened ((hpending _).mp hin) hscalar
          | filled hfilled => exact .filled hfilled
        · exact h.collections n ((hpending n).mpr hn)
      obtain ⟨u, hrun, hu, hlater⟩ := fillRound_keeps hempty fun n hn =>
        h.low n (List.mem_reverse.mp hn)
      obtain ⟨v, hruns, hv, hlast, hall⟩ := ih hu (by omega) rfl
      have hlow : Keeps g lo [] v :=
        ⟨hv.graph, hv.size, hv.fits, hv.collections,
          fun n hn => (Nat.le_succ lo).trans (hv.low n hn)⟩
      have hclear : (modify fun w => { w with waiting := [] } : Making Unit).run w =
          .ok ((), { w with waiting := [] }) := rfl
      refine ⟨v, ?_, hlow, hlast, hlater.trans hall⟩
      rw [fillAll, run_bind hget]
      split
      · rename_i hwaiting
        exact absurd hwaiting hnone
      · exact (run_bind hclear).trans ((run_bind hrun).trans hruns)

/-- **All that a root needs is made**, and nothing waits. -/
theorem making_shows {d : Document} {j : Json} (hj : Shows d.graph (.value j) (.node d.root)) :
    ∃ v, d.making.run ⟨d.graph, .replicate d.graph.size none, []⟩ = .ok ((), v) ∧
      v.made.size = d.graph.size ∧ IsMade v.made d.root ∧
      ∀ {n m}, v.made[n]? = some (some m) → Filled d.graph v.made n m := by
  have hstart : Keeps d.graph 0 [] ⟨d.graph, .replicate d.graph.size none, []⟩ := by
    refine ⟨rfl, Array.size_replicate, fun hm => ?_, by simp, by simp⟩
    rw [Array.getElem?_replicate] at hm
    split at hm <;> cases hm
  obtain ⟨m, u, hrun, hu, -, hroot, -⟩ := make_keeps hstart hj (Nat.zero_le _)
  obtain ⟨v, hruns, hv, hnone, hlater⟩ := @fillAll_keeps _ _ _ (d.graph.size + 1) hu (by omega)
  refine ⟨v, ?_, hv.size, hlater _ hroot, fun hm => ?_⟩
  · rw [Document.making, run_bind hrun]
    exact hruns
  · cases hv.fits hm with
    | opened hin =>
      rw [hnone] at hin
      cases hin
    | filled hfilled => exact hfilled

end Making

/-! ## Unrolling the root -/

namespace Unrolled

open Making (IsMade Filled keyOf scalar?_of_shows)

variable {made : Array (Option Made)} {kept : Array (Option Data)} {n : NodeId} {m : Made}
  {j : Json} {unroll : NodeId → Unrolling Unrolled}

/-- What is kept for later is the value that a node shows. -/
def Kept (g : Graph) (kept : Array (Option Data)) : Prop :=
  ∀ {i d}, kept[i]? = some (some d) → ∃ j, Shows g (.value j) (.node i) ∧ d = j.decoded

/-- The step has this value, without loops, and keeps what the nodes show. -/
def Gives (g : Graph) (x : Unrolling Unrolled) (d : Data) : Prop :=
  ∀ kept, Kept g kept → ∃ later, x.run kept = (⟨d, true⟩, later) ∧ Kept g later

theorem run_step {α β : Type} {x : Unrolling α} {f : α → Unrolling β} {a : α}
    {later : Array (Option Data)} (h : x.run kept = (a, later)) :
    (x >>= f).run kept = (f a).run later := by
  rw [StateT.run_bind, h]
  rfl

/-- So have several steps. -/
theorem mapM_gives {γ : Type} {step : γ → Unrolling Unrolled} {cs : List γ} {ds : List Data}
    (h : List.Forall₂ (fun c d => Gives g (step c) d) cs ds) (hkept : Kept g kept) :
    ∃ later, (cs.mapM step).run kept = (ds.map fun d => ⟨d, true⟩, later) ∧ Kept g later := by
  induction h generalizing kept with
  | nil => exact ⟨kept, rfl, hkept⟩
  | cons hfirst _ ih =>
    obtain ⟨middle, hrun, hmiddle⟩ := hfirst kept hkept
    obtain ⟨later, hruns, hlater⟩ := ih hmiddle
    refine ⟨later, ?_, hlater⟩
    rw [List.mapM_cons, run_step hrun, run_step hruns]
    rfl

theorem all_free (ds : List Data) : all (ds.map fun d => ⟨d, true⟩) = true := by
  simp [all]

theorem map_value (ds : List Data) :
    (ds.map fun d => (⟨d, true⟩ : Unrolled)).map (·.value) = ds := by
  rw [List.map_map]
  exact List.map_id ds

/-- A node among the parts of a collection, and what the value that it shows is decoded to. -/
def IsPart (g : Graph) (parts : List NodeId) (i : NodeId) (d : Data) : Prop :=
  i ∈ parts ∧ ∃ k, Shows g (.value k) (.node i) ∧ d = k.decoded

theorem IsPart.cons {parts : List NodeId} {i : NodeId} {d : Data} (h : IsPart g parts i d)
    (n : NodeId) : IsPart g (n :: parts) i d :=
  ⟨List.mem_cons_of_mem n h.1, h.2⟩

/-- The items that nodes show, one by one. -/
theorem parts_of_items {js : List Json} {ns : List NodeId} (h : Shows g (.items js) (.nodes ns)) :
    List.Forall₂ (IsPart g ns) ns (Json.decodedItems js) := by
  induction ns generalizing js with
  | nil =>
    cases h
    exact .nil
  | cons n ns ih =>
    cases h with
    | item h hmore =>
      exact .cons ⟨List.mem_cons_self, _, h, rfl⟩ ((ih hmore).imp fun i d hi => hi.cons n)

/-- The entries that nodes show, one by one. -/
theorem parts_of_entries {es : List (String × Json)} {ns : List NodeEntry}
    (h : Shows g (.entries es) (.entries ns)) :
    Entries.Beside (IsPart g (ns.map Prod.snd)) (ns.map fun e => (keyOf g e.1, e.2))
      (Json.decodedEntries es) := by
  induction ns generalizing es with
  | nil =>
    cases h
    exact .nil
  | cons e ns ih =>
    cases h with
    | @entry name j es k n _ hkey _ h hmore =>
      have hname : keyOf g k = .str name := by rw [keyOf, Graph.content, hkey]
      exact .cons ⟨hname, List.mem_cons_self, _, h, rfl⟩
        ((ih hmore).imp fun a b hab => ⟨hab.1, hab.2.cons n⟩)

/-- A list has the value of its items. -/
theorem list_gives {js : List Json} {items : List NodeId}
    (hshows : Shows g (.items js) (.nodes items))
    (hunroll : ∀ i ∈ items, ∀ {k}, Shows g (.value k) (.node i) → Gives g (unroll i) k.decoded) :
    Gives g (ofMade unroll (.list items)) (Json.arr js).decoded := by
  intro kept hkept
  have hparts : List.Forall₂ (fun i d => Gives g (unroll i) d) items (Json.decodedItems js) := by
    refine (parts_of_items hshows).imp ?_
    rintro i d ⟨hi, k, hk, rfl⟩
    exact hunroll i hi hk
  obtain ⟨later, hrun, hlater⟩ := mapM_gives hparts hkept
  refine ⟨later, ?_, hlater⟩
  rw [ofMade, run_step hrun, all_free, map_value, Json.decoded]
  rfl

/-- A mapping has the value of its entries. Of several with one key the same one counts on both
sides. -/
theorem map_gives {es : List (String × Json)} {ns : List NodeEntry}
    (hshows : Shows g (.entries es) (.entries ns))
    (hunroll : ∀ e ∈ ns, ∀ {k}, Shows g (.value k) (.node e.2) →
      Gives g (unroll e.2) k.decoded) :
    Gives g (ofMade unroll (.map (Entries.ofList (ns.map fun e => (keyOf g e.1, e.2)))))
      (Json.obj es).decoded := by
  intro kept hkept
  have hentries := (parts_of_entries hshows).ofList
  have hparts : List.Forall₂ (fun e d => Gives g (unroll e.2) d)
      (Entries.ofList (ns.map fun e => (keyOf g e.1, e.2)))
      ((Entries.ofList (Json.decodedEntries es)).map Prod.snd) := by
    refine List.forall₂_map_right_iff.mpr (hentries.imp ?_)
    rintro a b ⟨-, hin, k, hk, hb⟩
    obtain ⟨e, he, heq⟩ := List.mem_map.mp hin
    rw [hb]
    exact heq ▸ hunroll e he (heq ▸ hk)
  have hkeys : Entries.keys (Entries.ofList (ns.map fun e => (keyOf g e.1, e.2))) =
      (Entries.ofList (Json.decodedEntries es)).map Prod.fst :=
    Sequence.map_eq_map hentries fun a b hab => hab.1
  obtain ⟨later, hrun, hlater⟩ := mapM_gives hparts hkept
  refine ⟨later, ?_, hlater⟩
  rw [ofMade, run_step hrun, all_free, map_value, hkeys, Json.decoded,
    ← List.zip_of_prod rfl rfl]
  rfl

/-- **What a node was made into has the value that it shows**, if its parts have theirs. -/
theorem ofMade_gives (hm : Filled g made n m) (hj : Shows g (.value j) (.node n))
    (hunroll : ∀ {i k}, n < i → IsMade made i → Shows g (.value k) (.node i) →
      Gives g (unroll i) k.decoded) : Gives g (ofMade unroll m) j.decoded := by
  cases hj with
  | scalar ht hstands _ hnode =>
    cases hm with
    | scalar hs =>
      cases hs.symm.trans (hstands.value hnode)
      rw [Json.decoded_scalar ht]
      exact fun kept hkept => ⟨kept, rfl, hkept⟩
    | list hcontent => cases hcontent.symm.trans (congrArg Node.content hnode)
    | map hcontent => cases hcontent.symm.trans (congrArg Node.content hnode)
  | sequence hnode _ hbehind hshows =>
    cases hm with
    | scalar hs =>
      rw [Graph.scalar?, Graph.tag, hnode] at hs
      cases hs
    | list hcontent hmade =>
      cases hcontent.symm.trans (congrArg Node.content hnode)
      exact list_gives hshows fun i hi => hunroll (hbehind i hi) (hmade i hi)
    | map hcontent => cases hcontent.symm.trans (congrArg Node.content hnode)
  | mapping hnode _ hbehind hshows =>
    cases hm with
    | scalar hs =>
      rw [Graph.scalar?, Graph.tag, hnode] at hs
      cases hs
    | list hcontent => cases hcontent.symm.trans (congrArg Node.content hnode)
    | map hcontent hmade =>
      cases hcontent.symm.trans (congrArg Node.content hnode)
      exact map_gives hshows fun e he => hunroll (hbehind e he).2 (hmade e he)

/-- A value that a node shows may be kept for it. -/
theorem Kept.set (h : Kept g kept) (hj : Shows g (.value j) (.node n)) :
    Kept g (kept.setIfInBounds n (some j.decoded)) := by
  intro i d hi
  by_cases hin : n = i
  · subst hin
    rw [Array.getElem?_setIfInBounds_self] at hi
    split at hi
    · cases hi
      exact ⟨j, hj, rfl⟩
    · cases hi
  · rw [Array.getElem?_setIfInBounds_ne hin] at hi
    exact h hi

/-- A node that is not around itself, and of which nothing is kept, is what it was made into;
a value without loops is kept then. -/
theorem ofNode_run {fuel : Nat} {path : List NodeId} {d : Data} {later : Array (Option Data)}
    (hm : made[n]? = some (some m)) (hpath : n ∉ path) (hnew : ∀ d, kept[n]? ≠ some (some d))
    (h : (ofMade (ofNode made fuel (n :: path)) m).run kept = (⟨d, true⟩, later)) :
    (ofNode made (fuel + 1) path n).run kept = (⟨d, true⟩, later.setIfInBounds n (some d)) := by
  have hget : (get : Unrolling (Array (Option Data))).run kept = (kept, kept) := rfl
  have hfirst : path.contains n = false := by
    rwa [List.contains_eq_mem, decide_eq_false_iff_not]
  rw [ofNode, run_step hget]
  split
  · rename_i d hd
    exact absurd hd (hnew d)
  · rename_i hsame _
    cases hm.symm.trans hsame
    rw [hfirst, if_neg Bool.false_ne_true, run_step h]
    rfl
  · rename_i hother
    exact absurd hm (hother m)

/-- **A node has the value that it shows.** The collections around it have lesser numbers, so it
is none of them. -/
theorem ofNode_gives (hmade : ∀ {n m}, made[n]? = some (some m) → Filled g made n m) (fuel : Nat)
    {path : List NodeId} (hj : Shows g (.value j) (.node n)) (hn : IsMade made n)
    (hpath : ∀ i ∈ path, i < n) (hfuel : g.size ≤ fuel + n) :
    Gives g (ofNode made fuel path n) j.decoded := by
  have hlt : n < g.size := (scalar?_of_shows hj).1
  induction fuel generalizing n j path with
  | zero =>
    have hleast : g.size ≤ n := by rwa [Nat.zero_add] at hfuel
    exact absurd hlt (Nat.not_lt.mpr hleast)
  | succ fuel ih =>
    intro kept hkept
    have hget : (get : Unrolling (Array (Option Data))).run kept = (kept, kept) := rfl
    by_cases hknown : ∃ d, kept[n]? = some (some d)
    -- the value that was kept is the one that the node shows, since it shows one only
    · obtain ⟨d, hd⟩ := hknown
      obtain ⟨k, hk, rfl⟩ := hkept hd
      cases hk.unique hj
      refine ⟨kept, ?_, hkept⟩
      rw [ofNode, run_step hget, hd]
      rfl
    · obtain ⟨m, hm⟩ := hn
      have hparts : ∀ {i k}, n < i → IsMade made i → Shows g (.value k) (.node i) →
          Gives g (ofNode made fuel (n :: path) i) k.decoded := by
        intro i k hi hmadei hk
        refine ih hk hmadei (List.forall_mem_cons.mpr ⟨hi, fun p hp => (hpath p hp).trans hi⟩) ?_
          (scalar?_of_shows hk).1
        calc g.size ≤ fuel + 1 + n := hfuel
          _ = fuel + (n + 1) := Nat.add_right_comm fuel 1 n
          _ ≤ fuel + i := Nat.add_le_add_left hi fuel
      obtain ⟨later, hrun, hlater⟩ := ofMade_gives (hmade hm) hj hparts kept hkept
      exact ⟨_, ofNode_run hm (fun hin => Nat.lt_irrefl n (hpath n hin))
        (fun d hd => hknown ⟨d, hd⟩) hrun, hlater.set hj⟩

/-- So has the root: nothing stands around it. -/
theorem ofRoot_gives (hmade : ∀ {n m}, made[n]? = some (some m) → Filled g made n m)
    (hsize : made.size = g.size) (hj : Shows g (.value j) (.node n)) (hn : IsMade made n) :
    Gives g (ofRoot made n) j.decoded := by
  have hparts : ∀ {i k}, IsMade made i → Shows g (.value k) (.node i) →
      Gives g (ofNode made (made.size + 1) [] i) k.decoded := by
    intro i k hi hk
    refine ofNode_gives hmade _ hk hi (by simp) ?_
    rw [hsize]
    exact (Nat.le_succ g.size).trans (Nat.le_add_right _ i)
  rw [ofRoot]
  split
  · rename_i es hm
    exact ofMade_gives (hmade hm) hj fun _ hi hk => hparts hi hk
  · exact hparts hn hj

end Unrolled

/-- **A document has the value that its root shows.** -/
theorem Document.value_of_shows {d : Document} {j : Json}
    (h : Shows d.graph (.value j) (.node d.root)) : d.value = .ok j.decoded := by
  obtain ⟨v, hrun, hsize, hroot, hmade⟩ := Making.making_shows h
  have hnothing : Unrolled.Kept d.graph (.replicate d.graph.size none) := by
    intro i value hi
    rw [Array.getElem?_replicate] at hi
    split at hi <;> cases hi
  obtain ⟨later, hgives, -⟩ := Unrolled.ofRoot_gives hmade hsize h hroot _ hnothing
  rw [Document.value, hrun]
  dsimp only [bind, Except.bind]
  rw [hgives]
  rfl

/-! ## Loading a text -/

/-- **A JSON text in the shared notation is loaded as the value that it writes.** -/
theorem load_kept {j : Json} {text : List Char} (h : Json.Style.kept.Renders j text) :
    load (String.ofList text) = .ok j.decoded := by
  obtain ⟨d, hd, hshows⟩ := ofText?_kept h
  have hallowed : text.all isAllowed = true := List.all_eq_true.mpr h.allowed
  rw [load, String.toList_ofList, hallowed, hd]
  exact Document.value_of_shows hshows

end Yaml

end ApiMock
