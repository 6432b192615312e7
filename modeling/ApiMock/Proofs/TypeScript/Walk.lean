import ApiMock.Proofs.Entries
import ApiMock.Proofs.TypeScript.PlainType
import ApiMock.Proofs.TypeScript.Result
/-!
# TypeScript — the walk through the definitions

What resolving does beside giving a type: it asks for definitions, and on
the first request for one it expands that definition and stores the
expansion. A node is then a list of demands, and `Walk` is the course of
serving them, with the stores in the order in which they are made.

`resolve_walk` ties the two together: resolving a node serves the demands
of the node, and then gives the type that is read off its tree.
-/

namespace ApiMock

namespace TypeScript

open Sequence

/-- What a node asks of a pass. -/
inductive Demand where
  /-- The definition behind a reference. -/
  | follow (target : String)
  /-- The texts of the values of an enumeration. -/
  | literals (values : List Data)

mutual
/-- The demands of a node, in order. -/
def demands : Schema → List Demand
  | .reference target _ => [.follow target]
  | .array _ _ _ (some items) => demands items
  | .object _ _ _ properties _ => demandsOf properties
  | .enumeration _ _ _ values => [.literals values]
  | _ => []

/-- The demands of the properties of an object. -/
def demandsOf : List (String × Schema) → List Demand
  | [] => []
  | (_, property) :: rest => demands property ++ demandsOf rest
end

variable {defs : Definitions} {seen : List String} {target : String} {node : Schema}
  {p q r : Pass} {made later : List (String × Resolution)} {o : Except Failure Unit}

/-- A demand of an object is one of a property. -/
theorem mem_demandsOf {properties : List (String × Schema)} {d : Demand} :
    d ∈ demandsOf properties ↔ ∃ e ∈ properties, d ∈ demands e.2 := by
  induction properties with
  | nil => simp [demandsOf]
  | cons e rest ih =>
    obtain ⟨name, property⟩ := e
    simp [demandsOf, ih]

/-- The definitions a node asks for are those it mentions. -/
theorem follow_mem_demands : .follow target ∈ demands node ↔ node.Mentions target := by
  induction node using Schema.induct with
  | array declared format description items ih => simpa [demands] using ih
  | object declared format description properties required ih =>
    rw [demands, mem_demandsOf, Schema.Mentions, Schema.has_object]
    simp only [reduceCtorEq, exists_false, false_or]
    exact exists_congr fun e => and_congr_right fun he => ih e he
  | _ => simp [demands, eq_comm]

/-- The values a node asks the texts of are those it enumerates. -/
theorem literals_mem_demands {v : Data} :
    (∃ values, .literals values ∈ demands node ∧ v ∈ values) ↔ node.Enumerates v := by
  induction node using Schema.induct with
  | array declared format description items ih => simpa [demands] using ih
  | object declared format description properties required ih =>
    rw [demands, Schema.Enumerates, Schema.has_object]
    simp only [reduceCtorEq, false_and, exists_false, false_or, mem_demandsOf]
    constructor
    · rintro ⟨values, ⟨e, he, hmem⟩, hv⟩
      exact ⟨e, he, (ih e he).mp ⟨values, hmem, hv⟩⟩
    · rintro ⟨e, he, hv⟩
      obtain ⟨values, hmem, hv⟩ := (ih e he).mpr hv
      exact ⟨values, ⟨e, he, hmem⟩, hv⟩
  | _ => simp [demands]

/-! ## The course of a walk -/

/-- The expansion behind a reference that was followed. -/
def link (defs : Definitions) (seen : List String) :
    Schema → List (String × Resolution) → Option Resolution
  | .reference target _, expansions =>
    if seen.contains target || (defs.lookup target).isNone then none
    else expansions.lookup target
  | _, _ => none

/-- What a node resolves to once its demands are served: the type read off
its tree and, for a reference, what is kept of its definition. -/
def served (defs : Definitions) (seen : List String) (node : Schema) (q : Pass) :
    Except Failure Resolution :=
  (fun t => ⟨t, link defs seen node q.expansions⟩) <$>
    TypeExpr.ofNode (seen ++ Entries.keys defs) node

/-- The type of what is served is the one read off the tree. -/
theorem served_type :
    Resolution.type <$> served defs seen node q =
      TypeExpr.ofNode (seen ++ Entries.keys defs) node := by
  rw [served]
  cases TypeExpr.ofNode (seen ++ Entries.keys defs) node <;> rfl

/-- The pass with a warning about a reference to nothing. -/
def Pass.dangled (p : Pass) (target : String) : Pass :=
  { p with log := p.log ++ [⟨.warning, .types, danglingMessage target⟩] }

/-- The pass with an expansion stored. -/
def Pass.stored (p : Pass) (target : String) (r : Resolution) : Pass :=
  { p with expansions := Entries.put target r p.expansions }

/-- Serving demands while the definitions in `seen` are being expanded,
from one pass to another. The list is that of the stores in their order;
the outcome is a failure if an enumerated value has no text. -/
inductive Walk (defs : Definitions) : List String → List Demand → Pass →
    List (String × Resolution) → Except Failure Unit → Pass → Prop where
  | done {seen : List String} {p : Pass} : Walk defs seen [] p [] (.ok ()) p
  | printed {seen : List String} {values : List Data} {literals : List Literal}
      {rest : List Demand} {p q : Pass} {made : List (String × Resolution)}
      {o : Except Failure Unit} (h : values.mapM Literal.ofData = .ok literals)
      (onward : Walk defs seen rest p made o q) :
      Walk defs seen (.literals values :: rest) p made o q
  | unprintable {seen : List String} {values : List Data} {e : Failure} {rest : List Demand}
      {p : Pass} (h : values.mapM Literal.ofData = .error e) :
      Walk defs seen (.literals values :: rest) p [] (.error e) p
  /-- The definition is being expanded: the reference closes a cycle. -/
  | closed {seen : List String} {target : String} {rest : List Demand} {p q : Pass}
      {made : List (String × Resolution)} {o : Except Failure Unit} (h : target ∈ seen)
      (onward : Walk defs seen rest p made o q) :
      Walk defs seen (.follow target :: rest) p made o q
  /-- There is no definition. -/
  | dangling {seen : List String} {target : String} {rest : List Demand} {p q : Pass}
      {made : List (String × Resolution)} {o : Except Failure Unit} (hseen : target ∉ seen)
      (hdef : defs.lookup target = none)
      (onward : Walk defs seen rest (p.dangled target) made o q) :
      Walk defs seen (.follow target :: rest) p made o q
  /-- The expansion is there. -/
  | known {seen : List String} {target : String} {definition : Schema} {r : Resolution}
      {rest : List Demand} {p q : Pass} {made : List (String × Resolution)}
      {o : Except Failure Unit} (hseen : target ∉ seen)
      (hdef : defs.lookup target = some definition) (h : p.expansions.lookup target = some r)
      (onward : Walk defs seen rest p made o q) :
      Walk defs seen (.follow target :: rest) p made o q
  /-- The definition is expanded, and the expansion is stored. -/
  | expanded {seen : List String} {target : String} {definition : Schema} {r : Resolution}
      {rest : List Demand} {p inner q : Pass} {made later : List (String × Resolution)}
      {o : Except Failure Unit} (hseen : target ∉ seen)
      (hdef : defs.lookup target = some definition) (hnew : p.expansions.lookup target = none)
      (below : Walk defs (target :: seen) (demands definition) p made (.ok ()) inner)
      (hr : served defs (target :: seen) definition inner = .ok r)
      (onward : Walk defs seen rest (inner.stored target r) later o q) :
      Walk defs seen (.follow target :: rest) p (made ++ (target, r) :: later) o q
  /-- Expanding the definition fails. -/
  | failed {seen : List String} {target : String} {definition : Schema} {e : Failure}
      {rest : List Demand} {p q : Pass} {made : List (String × Resolution)}
      (hseen : target ∉ seen) (hdef : defs.lookup target = some definition)
      (hnew : p.expansions.lookup target = none)
      (below : Walk defs (target :: seen) (demands definition) p made (.error e) q) :
      Walk defs seen (.follow target :: rest) p made (.error e) q

namespace Walk

variable {xs ys : List Demand} {e : Failure}

/-- A walk goes on where one before it ends. -/
theorem append (first : Walk defs seen xs p made (.ok ()) q)
    (second : Walk defs seen ys q later o r) :
    Walk defs seen (xs ++ ys) p (made ++ later) o r := by
  -- along the first walk; the walks below a target are not lengthened
  generalize hok : (Except.ok () : Except Failure Unit) = ok at first
  induction first with
  | done => exact second
  | printed h _ ih => exact .printed h (ih second hok)
  | unprintable h => cases hok
  | closed h _ ih => exact .closed h (ih second hok)
  | dangling hseen hdef _ ih => exact .dangling hseen hdef (ih second hok)
  | known hseen hdef h _ ih => exact .known hseen hdef h (ih second hok)
  | expanded hseen hdef hnew below hr _ _ ih =>
    rw [List.append_assoc, List.cons_append]
    exact .expanded hseen hdef hnew below hr (ih second hok)
  | failed => cases hok

/-- A walk that fails is not taken further. -/
theorem stop (h : Walk defs seen xs p made (.error e) q) :
    Walk defs seen (xs ++ ys) p made (.error e) q := by
  generalize herror : (Except.error e : Except Failure Unit) = o at h
  induction h with
  | done => cases herror
  | printed h _ ih => exact .printed h (ih herror)
  | unprintable h =>
    cases herror
    exact .unprintable h
  | closed h _ ih => exact .closed h (ih herror)
  | dangling hseen hdef _ ih => exact .dangling hseen hdef (ih herror)
  | known hseen hdef h _ ih => exact .known hseen hdef h (ih herror)
  | expanded hseen hdef hnew below hr _ _ ih => exact .expanded hseen hdef hnew below hr (ih herror)
  | failed hseen hdef hnew below =>
    cases herror
    exact .failed hseen hdef hnew below

/-- A walk that succeeds has found the texts of all values asked for. -/
theorem printable (h : Walk defs seen xs p made (.ok ()) q) {values : List Data}
    (hmem : .literals values ∈ xs) : ∃ literals, values.mapM Literal.ofData = .ok literals := by
  generalize hok : (Except.ok () : Except Failure Unit) = ok at h
  induction h with
  | done => cases hmem
  | printed h _ ih =>
    rcases List.mem_cons.mp hmem with heq | hmem
    · cases heq
      exact ⟨_, h⟩
    · exact ih hmem hok
  | unprintable h => cases hok
  | failed => cases hok
  | closed _ _ ih | dangling _ _ _ ih | known _ _ _ _ ih | expanded _ _ _ _ _ _ _ ih =>
    rcases List.mem_cons.mp hmem with heq | hmem
    · cases heq
    · exact ih hmem hok

/-- After a walk that served all demands of a node, its values have texts. -/
theorem printable_node (h : Walk defs seen (demands node) p made (.ok ()) q) : Printable node := by
  intro v hv
  obtain ⟨values, hmem, hv⟩ := literals_mem_demands.mpr hv
  obtain ⟨literals, h⟩ := h.printable hmem
  exact isOk_of_mapM h v hv

/-- And so it has a type. -/
theorem typed (h : Walk defs seen (demands node) p made (.ok ()) q) {known : List String} :
    ∃ t, TypeExpr.ofNode known node = .ok t :=
  TypeExpr.ofNode_isOk h.printable_node

/-- And so it resolves. -/
theorem served_isOk (h : Walk defs seen (demands node) p made (.ok ()) q) :
    ∃ r, served defs seen node q = .ok r := by
  obtain ⟨t, ht⟩ := h.typed
  exact ⟨_, by rw [served, ht]; rfl⟩

end Walk

end TypeScript

end ApiMock
